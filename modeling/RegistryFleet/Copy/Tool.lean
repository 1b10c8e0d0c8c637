import RegistryFleet.Copy.Shell
import RegistryFleet.Fleet.Registry

/-!
# Copy/Tool — command lines of the image copy tool

Images are copied from registry to registry, out to a directory or in from one. A scheduled job
runs a script that copies one repository after the other; every word of its command is quoted, so
that credentials and hosts reach the tool as they are.
-/

namespace RegistryFleet.CopyTool

/-- The name of the tool. -/
def tool : String := "skopeo"

/-- The container image that holds the tool. -/
def standardImage : String := "quay.io/skopeo/stable"

/-- The variable that lists the repositories to copy. -/
def repositoriesVariable : String := "REPOSITORIES"

/-- Arguments that copy from registry to registry. -/
def syncArguments (source : String) (sourceCredentials : Credentials) (destination : String)
    (destinationCredentials : Credentials) : List String :=
  ["sync", "--src", "docker", "--dest", "docker", "--src-creds", sourceCredentials.pair,
    "--dest-creds", destinationCredentials.pair, source, destination]

/-- Arguments that copy from a registry to a directory. -/
def exportArguments (source : String) (credentials : Credentials) (directory : String) :
    List String :=
  ["sync", "--src", "docker", "--dest", "dir", "--scoped", "--src-creds", credentials.pair,
    source, directory]

/-- Arguments that copy from a directory to a registry. -/
def importArguments (directory destination : String) (credentials : Credentials) : List String :=
  ["sync", "--src", "dir", "--dest", "docker", "--dest-creds", credentials.pair, directory,
    destination]

/-- The variable of the loop, as the argument that stands for the source. -/
def loopVariable : String := "$repo"

/-- An argument as a word of the script; only the variable of the loop is expanded. -/
def scriptWord? (argument : String) : Option String :=
  if argument = loopVariable then some ("\"" ++ loopVariable ++ "\"") else Shell.word? argument

/-- The words of the command in the loop. -/
def commandWords? (sourceCredentials : Credentials) (destination : String)
    (destinationCredentials : Credentials) : Option (List String) := do
  let arguments ← (syncArguments loopVariable sourceCredentials destination
    destinationCredentials).mapM scriptWord?
  return tool :: arguments

/-- The head of the script, up to the command. -/
def scriptHead : String :=
  "repoArray=($\x7b" ++ repositoriesVariable ++ "\x7d)\nfor repo in \"$\x7brepoArray[@]\x7d\"\ndo\n\t"

/-- **The script of a job**; there is none if a word cannot be quoted. -/
def script? (sourceCredentials : Credentials) (destination : String)
    (destinationCredentials : Credentials) : Option String := do
  let words ← commandWords? sourceCredentials destination destinationCredentials
  return scriptHead ++ " ".intercalate words ++ "\ndone"

end RegistryFleet.CopyTool
