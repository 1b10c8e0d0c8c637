import RegistryFleet.Command.Form
import RegistryFleet.Keyed
import RegistryFleet.Text.Cut

/-!
# Command/Words — the words behind a command

Words are read in order. The first that cannot stand where it stands ends the reading, and so does
a call for help; so help is shown only if everything in front of it is right.
-/

namespace RegistryFleet.Command

/-- **Why the reading of words ends** before there is something to carry out. -/
inductive Stop
  /-- The words are not a use of the command. -/
  | misuse
  /-- Help was called for, in short or at length. -/
  | help (atLength : Bool)
  deriving DecidableEq, Repr

/-- The values given so far, by name. -/
abbrev Given : Type := Keyed String

/-- What a word is. -/
inductive Word
  /-- A long name, with a value or without one. -/
  | long (name : String) (value : Option String)
  /-- Short names, each a letter, in front of a value perhaps. -/
  | short (letters : List Char)
  /-- The mark that no names follow. -/
  | mark
  | plain
  deriving DecidableEq, Repr

/-- What a word is. -/
def Word.ofText (s : String) : Word :=
  match s.toList with
  | ['-', '-'] => mark
  | '-' :: '-' :: rest =>
    match Text.cutAt? '=' rest with
    | some (name, value) => long (String.ofList name) (some (String.ofList value))
    | none => long (String.ofList rest) none
  | '-' :: c :: rest => short (c :: rest)
  | _ => plain

namespace Form

/-- The parameter of a long name. -/
def named? (form : Form) (name : String) : Option Parameter :=
  form.parameters.find? fun p => p.name == name

/-- The parameter of a letter. -/
def lettered? (form : Form) (letter : Char) : Option Parameter :=
  form.parameters.find? fun p => p.letter == some letter

/-- Gives a parameter a value, which must be its first. -/
def give (given : Given) (p : Parameter) (value : String) : Except Stop Given :=
  if given.contains p.name || !p.kind.accepts value then .error .misuse
  else .ok (given.insert p.name value)

/-- Turns a switch on, for the first time. -/
def turnOn (given : Given) (p : Parameter) : Except Stop Given :=
  if given.contains p.name then .error .misuse else .ok (given.insert p.name "")

/-- Reads letters; the parameter that still waits for its value is returned. -/
def readLetters (form : Form) : Given → List Char → Except Stop (Given × Option Parameter)
  | given, [] => .ok (given, none)
  | given, c :: rest =>
    if c = 'h' then .error (.help false)
    else
      match form.lettered? c with
      | none => .error .misuse
      | some p =>
        if p.kind = .switch then do readLetters form (← turnOn given p) rest
        else
          match rest with
          | [] => .ok (given, some p)
          | '=' :: value => do return (← give given p (String.ofList value), none)
          | value => do return (← give given p (String.ofList value), none)

/-- Reads a long name. -/
def readName (form : Form) (given : Given) (name : String) (value : Option String) :
    Except Stop (Given × Option Parameter) :=
  if name = "help" then .error (if value.isNone then .help true else .misuse)
  else
    match form.named? name with
    | none => .error .misuse
    | some p =>
      match p.kind, value with
      | .switch, some _ => .error .misuse
      | .switch, none => do return (← turnOn given p, none)
      | _, some v => do return (← give given p v, none)
      | _, none => .ok (given, some p)

/-- **Reads words**, with what was given so far and the parameter that waits for its value. -/
def readWords (form : Form) : Given → Option Parameter → List String → Except Stop Given
  | given, none, [] => .ok given
  | _, some _, [] => .error .misuse
  | given, some p, w :: rest =>
    match Word.ofText w with
    | .plain => do readWords form (← give given p w) none rest
    | _ => .error .misuse
  | given, none, w :: rest =>
    match Word.ofText w with
    | .plain => .error .misuse
    | .mark => if rest.isEmpty then .ok given else .error .misuse
    | .long name value => do
      let (given, waiting) ← form.readName given name value
      readWords form given waiting rest
    | .short letters => do
      let (given, waiting) ← form.readLetters given letters
      readWords form given waiting rest

/-- Gives the parameters that were not given what the environment or the form has for them. -/
def fill (environment : String → Option String) : Given → List Parameter → Except Stop Given
  | given, [] => .ok given
  | given, p :: rest =>
    if given.contains p.name then fill environment given rest
    else
      match p.fromVariable.bind environment, p.fallback with
      | some value, _ => do fill environment (← give given p value) rest
      | none, some value => fill environment (given.insert p.name value) rest
      | none, none => if p.required then .error .misuse else fill environment given rest

/-- **The values for a form** from the words and the environment. -/
def read (form : Form) (environment : String → Option String) (words : List String) :
    Except Stop Given := do
  let given ← fill environment (← form.readWords .empty none words) form.parameters
  if form.exclusive.any fun (a, b) => given.contains a && given.contains b then throw .misuse
  return given

end Form

end RegistryFleet.Command
