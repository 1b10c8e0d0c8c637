import RegistryFleet.Text.Digits
import RegistryFleet.Yaml.Character
import RegistryFleet.Yaml.Plain

/-!
# Yaml/Scalar — how a text is written as a scalar

A text of several lines becomes a literal block. Any other text is written plain if it then reads
as that very text, else between single quotes, else between double quotes with escapes.
-/

namespace RegistryFleet.Yaml

/-- A way to write a scalar. -/
inductive Style
  | plain
  | single
  | double
  | literal
  deriving DecidableEq, Repr

/-- Marks that an unquoted scalar cannot begin with. -/
def isIndicator (c : Char) : Bool := "#,[]{}&*!|>'\"%@`".toList.contains c

/-- Does what follows end a word: a blank, a break or the end? -/
def endsWord : List Char → Bool
  | [] => true
  | c :: _ => isBlankOrBreak c

/-- Does a mark inside the text, behind `before`, keep it from being plain? -/
def hasInnerMark (before : Char) : List Char → Bool
  | [] => false
  | c :: rest =>
    (c == ':' && endsWord rest) || (c == '#' && isBlankOrBreak before) || hasInnerMark c rest

/-- Do marks of the format keep the text from being plain? -/
def hasMark (cs : List Char) : Bool :=
  match cs with
  | [] => false
  | '-' :: '-' :: '-' :: _ | '.' :: '.' :: '.' :: _ => true
  | c :: rest =>
    isIndicator c || (['?', ':', '-'].contains c && endsWord rest) || hasInnerMark c rest

/-- Does a space stand in front of a break? -/
def hasSpaceBreak : List Char → Bool
  | ' ' :: c :: rest => isBreak c || hasSpaceBreak (c :: rest)
  | _ :: rest => hasSpaceBreak rest
  | [] => false

/-- Does a space stand behind a break? -/
def hasBreakSpace : List Char → Bool
  | c :: ' ' :: rest => isBreak c || hasBreakSpace (' ' :: rest)
  | _ :: rest => hasBreakSpace rest
  | [] => false

/-- Is there a character that only double quotes can hold? -/
def isSpecial (cs : List Char) : Bool :=
  hasSpaceBreak cs || !cs.all isPrintable

/-- Does the text begin or end with a space or a break? -/
def hasLooseEnd (cs : List Char) : Bool :=
  let loose (c : Option Char) : Bool := c.any fun c => c == ' ' || isBreak c
  loose cs.head? || loose cs.getLast?

/-- Can the text stand unquoted? -/
def plainAllowed (cs : List Char) : Bool :=
  !isSpecial cs && !cs.any isBreak && !hasLooseEnd cs && !hasMark cs

/-- Can the text stand between single quotes? -/
def singleAllowed (cs : List Char) : Bool := !isSpecial cs && !hasBreakSpace cs

/-- Can the text stand as a literal block? -/
def literalAllowed (cs : List Char) : Bool := !isSpecial cs && cs.getLast? != some ' '

/-- Would the text, unquoted, stand for something else? -/
def isAmbiguous (s : String) : Bool :=
  Plain.ofText s != .text || Plain.isPaddedNumeral s.toList

/-- **The style of a text**, as a key or as a value. -/
def styleOf (key : Bool) (s : String) : Style :=
  let cs := s.toList
  if key && cs.any isBreak then .double
  else if cs.contains '\n' then
    if literalAllowed cs then .literal else .double
  else if !isAmbiguous s && plainAllowed cs then .plain
  else if singleAllowed cs then .single
  else .double

/-- How a character is written between double quotes. -/
def doubleEscaped (c : Char) : List Char :=
  let n := c.toNat
  if n = 0 then ['\\', '0']
  else if n = 7 then ['\\', 'a']
  else if n = 8 then ['\\', 'b']
  else if n = 9 then ['\\', 't']
  else if n = 10 then ['\\', 'n']
  else if n = 11 then ['\\', 'v']
  else if n = 12 then ['\\', 'f']
  else if n = 13 then ['\\', 'r']
  else if n = 0x1B then ['\\', 'e']
  else if c = '"' then ['\\', '"']
  else if c = '\\' then ['\\', '\\']
  else if n = 0x85 then ['\\', 'N']
  else if n = 0x2028 then ['\\', 'L']
  else if n = 0x2029 then ['\\', 'P']
  else if isPrintable c then [c]
  else if n ≤ 0xFF then ['\\', 'x'] ++ Text.upperHex 2 n
  else if n ≤ 0xFFFF then ['\\', 'u'] ++ Text.upperHex 4 n
  else ['\\', 'U'] ++ Text.upperHex 8 n

/-- The text between double quotes. -/
def doubleQuoted (cs : List Char) : List Char :=
  '"' :: cs.flatMap doubleEscaped ++ ['"']

/-- Writes characters, indenting what follows a break. -/
def indentLines (indent : Nat) : (broken : Bool) → List Char → List Char
  | _, [] => []
  | broken, c :: rest =>
    if isBreak c then c :: indentLines indent true rest
    else (if broken then List.replicate indent ' ' else []) ++ c :: indentLines indent false rest

/-- The text between single quotes, lines after the first indented. -/
def singleQuoted (indent : Nat) (cs : List Char) : List Char :=
  let body := indentLines indent false (cs.flatMap fun c => if c = '\'' then ['\'', '\''] else [c])
  let closing := if cs.getLast?.any isBreak then List.replicate indent ' ' else []
  '\'' :: body ++ closing ++ ['\'']

/-- The hints behind the bar of a literal block: the indentation, where the text itself begins with
a blank or a break, and what becomes of the last breaks. -/
def literalHints (cs : List Char) : List Char :=
  let indentation := if cs.head?.any fun c => c == ' ' || isBreak c then ['2'] else []
  let chomping := match cs.reverse with
    | last :: before =>
      if !isBreak last then ['-']
      else if before.head?.all isBreak then ['+'] else []
    | [] => ['-']
  indentation ++ chomping

/-- A literal block, its lines indented. -/
def literalBlock (indent : Nat) (cs : List Char) : List Char :=
  '|' :: literalHints cs ++ '\n' :: indentLines indent true cs

/-- **A text as a scalar** whose further lines are indented. -/
def scalar (indent : Nat) (key : Bool) (s : String) : String :=
  let cs := s.toList
  String.ofList <|
    match styleOf key s with
    | .plain => cs
    | .single => singleQuoted indent cs
    | .double => doubleQuoted cs
    | .literal => literalBlock indent cs

end RegistryFleet.Yaml
