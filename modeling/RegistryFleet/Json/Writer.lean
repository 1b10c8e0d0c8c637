import RegistryFleet.Data
import RegistryFleet.Text.Digits

/-!
# Json/Writer — data as JSON text

Two layouts: on one line without blanks, and indented by two spaces. Only what must be escaped is
escaped.
-/

namespace RegistryFleet.Json

/-- How a character is written between quotes. -/
def escaped (c : Char) : List Char :=
  match c with
  | '"' => ['\\', '"']
  | '\\' => ['\\', '\\']
  | '\n' => ['\\', 'n']
  | '\r' => ['\\', 'r']
  | '\t' => ['\\', 't']
  | c =>
    if c.toNat = 8 then ['\\', 'b']
    else if c.toNat = 12 then ['\\', 'f']
    else if c.toNat < 32 then ['\\', 'u'] ++ Text.lowerHex 4 c.toNat
    else [c]

/-- A text between quotes. -/
def quote (s : String) : String :=
  String.ofList ('"' :: s.toList.flatMap escaped ++ ['"'])

/-- The words for null and the truth values. -/
def literal : Option Bool → String
  | none => "null"
  | some true => "true"
  | some false => "false"

mutual

/-- **Data on one line.** -/
def compact : Data → String
  | .null => literal none
  | .bool b => literal (some b)
  | .int n => toString n
  | .text s => quote s
  | .list items => "[" ++ compactItems items ++ "]"
  | .record fields => "\x7b" ++ compactFields fields ++ "\x7d"

/-- Items on one line, divided by commas. -/
def compactItems : List Data → String
  | [] => ""
  | [d] => compact d
  | d :: rest => compact d ++ "," ++ compactItems rest

/-- Fields on one line, divided by commas. -/
def compactFields : List (String × Data) → String
  | [] => ""
  | [(k, d)] => quote k ++ ":" ++ compact d
  | (k, d) :: rest => quote k ++ ":" ++ compact d ++ "," ++ compactFields rest

end

/-- A line break and the blanks of a level. -/
def newline (level : Nat) : String := "\n" ++ "".pushn ' ' (2 * level)

mutual

/-- Data on indented lines, within a level. -/
def indented (level : Nat) : Data → String
  | .null => literal none
  | .bool b => literal (some b)
  | .int n => toString n
  | .text s => quote s
  | .list [] => "[]"
  | .list items => "[" ++ indentedItems (level + 1) items ++ newline level ++ "]"
  | .record [] => "\x7b\x7d"
  | .record fields =>
    "\x7b" ++ indentedFields (level + 1) fields ++ newline level ++ "\x7d"

/-- Items on a line each. -/
def indentedItems (level : Nat) : List Data → String
  | [] => ""
  | [d] => newline level ++ indented level d
  | d :: rest => newline level ++ indented level d ++ "," ++ indentedItems level rest

/-- Fields on a line each. -/
def indentedFields (level : Nat) : List (String × Data) → String
  | [] => ""
  | [(k, d)] => newline level ++ quote k ++ ": " ++ indented level d
  | (k, d) :: rest =>
    newline level ++ quote k ++ ": " ++ indented level d ++ "," ++ indentedFields level rest

end

/-- **Data on indented lines.** -/
def pretty (d : Data) : String := indented 0 d

end RegistryFleet.Json
