import RegistryFleet.Command.Form
import RegistryFleet.Text.Blank
import RegistryFleet.Text.Quoted

/-!
# Command/Manual — what is shown when help is called for

Parameters are listed with their descriptions beside them, or on the next lines where the
descriptions would not fit. At length, each parameter is a paragraph of its own.
-/

namespace RegistryFleet.Command

/-- The name of the program. -/
def program : String := "regfleet"

/-- What the program is. -/
def aboutProgram : String := "Regfleet - container registry fleet reconciler"

/-- What the help command does. -/
def aboutHelp : String := "Print this message or the help of the given subcommand(s)"

/-- So many blanks. -/
def blanks (count : Nat) : String := "".pushn ' ' count

/-- Where descriptions on the next line begin. -/
def deep : String := blanks 10

namespace Parameter

/-- The word that stands for the value. -/
def valueWord (p : Parameter) : String :=
  String.ofList (p.name.toList.map fun c => if c = '-' then '_' else c.toUpper)

/-- The long name with the value. -/
def spelling (p : Parameter) : String :=
  "--" ++ p.name ++ if p.kind = .switch then "" else " <" ++ p.valueWord ++ ">"

/-- Both names with the value. -/
def heading (p : Parameter) : String :=
  match p.letter with
  | some c => "  -" ++ c.toString ++ ", " ++ p.spelling
  | none => "      " ++ p.spelling

/-- A value as it is shown; one with blanks is quoted. -/
def shownValue (value : String) : String :=
  if value.toList.any Text.isBlank then Text.quoted value else value

/-- What can be said of the value in brackets. -/
def remarks (environment : String → Option String) (p : Parameter) (withOptions : Bool) :
    List String :=
  let fromEnvironment := p.fromVariable.map fun v =>
    "[env: " ++ v ++ "=" ++ (environment v).getD "" ++ "]"
  let whenNotGiven := p.fallback.map fun v => "[default: " ++ shownValue v ++ "]"
  let options := match p.kind with
    | .choice options =>
      if withOptions then ["[possible values: " ++ ", ".intercalate (options.map (·.1)) ++ "]"] else []
    | _ => []
  fromEnvironment.toList ++ whenNotGiven.toList ++ options

/-- The description on one line. -/
def brief (environment : String → Option String) (p : Parameter) : String :=
  " ".intercalate (p.about :: p.remarks environment true)

/-- The options at length. -/
def optionLines (p : Parameter) : String :=
  match p.kind with
  | .choice options =>
    "\n\n" ++ deep ++ "Possible values:"
      ++ String.join (options.map fun (name, meaning) =>
        "\n" ++ deep ++ "- " ++ name ++ ": " ++ meaning)
  | _ => ""

/-- The paragraph at length. -/
def paragraph (environment : String → Option String) (p : Parameter) : String :=
  let remarks := p.remarks environment false
  p.heading ++ "\n" ++ deep ++ p.about ++ p.optionLines
    ++ (if remarks.isEmpty then "" else
      "\n" ++ deep ++ "\n" ++ deep ++ ("\n" ++ deep).intercalate remarks)

end Parameter

namespace Form

/-- The call for help, as a parameter of every command. -/
def helpParameter (about : String) : Parameter := ⟨"help", some 'h', .switch, about, none, none, false⟩

/-- Is there more to say at length? -/
def hasMore (form : Form) : Bool :=
  form.parameters.any fun p =>
    match p.kind with
    | .choice _ => true
    | _ => false

/-- How the command is used. -/
def usage (form : Form) : String :=
  let required := form.parameters.filter Parameter.required
  "Usage: " ++ program ++ " " ++ form.name
    ++ (if required.length < form.parameters.length then " [OPTIONS]" else "")
    ++ String.join (required.map fun p => " " ++ p.spelling)

/-- The width of a line. -/
def lineWidth : Nat := 100

/-- Would the description be too long to stand beside names of this width? -/
def overflows (width : Nat) (description : String) : Bool :=
  let taken := width + 12
  taken ≤ lineWidth && 2 * lineWidth < 5 * taken && lineWidth - taken < description.length

/-- Parameters with brief descriptions. -/
def briefList (environment : String → Option String) (parameters : List Parameter) : String :=
  let width := (parameters.map fun p => p.spelling.length).foldl max 0
  let deepLines := parameters.any fun p => overflows width (p.brief environment)
  "\n".intercalate (parameters.map fun p =>
    if deepLines then p.heading ++ "\n" ++ deep ++ p.brief environment
    else p.heading ++ blanks (width - p.spelling.length + 2) ++ p.brief environment)

/-- **The manual of a command**, in short or at length. -/
def manual (form : Form) (environment : String → Option String) (atLength : Bool) : String :=
  let front := form.about ++ "\n\n" ++ form.usage ++ "\n\nOptions:\n"
  if !form.hasMore then
    front ++ briefList environment (form.parameters ++ [helpParameter "Print help"]) ++ "\n"
  else if atLength then
    let help := helpParameter "Print help (see a summary with '-h')"
    front ++ "\n\n".intercalate ((form.parameters ++ [help]).map (Parameter.paragraph environment))
      ++ "\n"
  else
    let help := helpParameter "Print help (see more with '--help')"
    front ++ briefList environment (form.parameters ++ [help]) ++ "\n"

end Form

/-- **The manual of the program.** -/
def programManual : String :=
  let commands := (Verb.all.map fun v => (v.form.name, v.form.about)) ++ [("help", aboutHelp)]
  let width := (commands.map fun c => c.1.length).foldl max 0
  aboutProgram ++ "\n\nUsage: " ++ program ++ " <COMMAND>\n\nCommands:\n"
    ++ String.join (commands.map fun (name, about) =>
      "  " ++ name ++ blanks (width - name.length + 2) ++ about ++ "\n")
    ++ "\nOptions:\n  -h, --help     Print help\n  -V, --version  Print version\n"

/-- The manual of the help command. -/
def helpManual : String :=
  aboutHelp ++ "\n\nUsage: " ++ program
    ++ " help [COMMAND]...\n\nArguments:\n  [COMMAND]...  Print help for the subcommand(s)\n"

end RegistryFleet.Command
