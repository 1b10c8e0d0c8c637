import RegistryFleet.Command.Execution
import RegistryFleet.Command.Moment
import Std.Time.DateTime.Timestamp

/-!
# Main — the program

The files that a command line names are taken from the disk, the command is carried out on them,
and what it wrote is put back. The program opens no connections of its own: the peer that it speaks
to is one that cannot be reached.
-/

namespace RegistryFleet.Command

/-- The directories that a command writes to. -/
def Ask.targets : Ask → List String
  | .carryOut (.apply _ _ credentials jobs) =>
    credentials.directory.toList ++ match jobs.target with
      | .manifests path => [path]
      | _ => []
  | .carryOut (.replication _ jobs) =>
    match jobs.target with
    | .manifests path => [path]
    | _ => []
  | _ => []

/-- The file that a command reads. -/
def Ask.source? : Ask → Option String
  | .carryOut (.plan fleet _) | .carryOut (.apply fleet ..) | .carryOut (.replication fleet _) =>
    some fleet.config
  | _ => none

/-- The path and those above it, the highest first. -/
def prefixes (path : String) : List String :=
  let names := Files.namesOf path
  let front := if path.startsWith "/" then "/" else ""
  (List.range names.length).map fun n => front ++ Files.key (names.take (n + 1))

/-- The tree with what the disk has at a path. -/
def takePath (files : Files) (path : String) : IO Files := do
  try
    if ← (← IO.FS.realPath path).isDir then
      return files.put (Files.namesOf path) .directory
    else return files.put (Files.namesOf path) (.file (← IO.FS.readFile path))
  catch _ => return files

/-- The tree with what the disk has in a directory. -/
def takeDirectory (files : Files) (path : String) : IO Files := do
  try
    let entries ← (← IO.FS.realPath path).readDir
    entries.foldlM (fun files entry => takePath files (Files.join path entry.fileName)) files
  catch _ => return files

/-- The files that a command works on. -/
def takeFiles (ask : Ask) : IO Files := do
  let paths := ask.source?.toList ++ ask.targets
  let files ← (paths.flatMap prefixes).foldlM takePath Files.empty
  ask.targets.foldlM takeDirectory files

/-- Puts the files of a directory back onto the disk. -/
def putDirectory (before after : Files) (path : String) : IO Unit := do
  if after.at? (Files.namesOf path) = some .directory then IO.FS.createDirAll path
  for (name, content) in after.below path do
    unless (before.below path).contains (name, content) do
      IO.FS.writeFile (Files.join path name) content
  for (name, _) in before.below path do
    unless (after.below path).any fun f => f.1 == name do
      IO.FS.removeFile (Files.join path name)

/-- Nanoseconds since the beginning of 1970. -/
def now : IO Nat := do
  return (← Std.Time.Timestamp.now).toNanosecondsSinceUnixEpoch.val.toNat

/-- A number of so many random octets. -/
def chance (octets : USize) : IO Nat := do
  return (← IO.getRandomBytes octets).toList.foldl (fun n octet => n * 256 + octet.toNat) 0

/-- Carries a command line out. -/
def runProgram (words : List String) : IO UInt32 := do
  let known ← ["REGFLEET_CONFIG", "REGFLEET_OUTPUT_DIR"].mapM fun name =>
    return (name, ← IO.getEnv name)
  let environment (name : String) : Option String := (known.lookup name).join
  let ask := Ask.ofWords environment words
  let before ← takeFiles ask
  let started ← now
  let ending := execute environment (stampOf (← chance 10) started started) words before .absent
  IO.print ending.desk.printed
  for path in ask.targets do putDirectory before ending.desk.files path
  match ending.complaint with
  | some c => IO.eprint c.message
  | none => if ending.code = 2 then IO.eprint programManual
  return ending.code.toUInt32

end RegistryFleet.Command

/-- The program. -/
def main (words : List String) : IO UInt32 := RegistryFleet.Command.runProgram words
