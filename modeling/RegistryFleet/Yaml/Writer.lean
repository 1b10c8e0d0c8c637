import RegistryFleet.Data
import RegistryFleet.Yaml.Scalar

/-!
# Yaml/Writer — data as a YAML document

Records are block mappings indented by two, lists are block sequences at the level of their key,
and what is empty is written in brackets. Lines are never folded.
-/

namespace RegistryFleet.Yaml

/-- The blanks of an indentation. -/
def blanks (indent : Nat) : String := "".pushn ' ' indent

/-- A value that ends its line; a literal block may have ended it already. -/
def endLine (s : String) : String :=
  if s.toList.getLast?.any isBreak then s else s ++ "\n"

/-- A key longer than this is marked as one. -/
def longestKey : Nat := 128

/-- A key with the mark that leads to its value. -/
def keyLead (indent : Nat) (k : String) : String :=
  let written := scalar (indent + 2) true k
  if k.utf8ByteSize > longestKey then "? " ++ written ++ "\n" ++ blanks indent ++ ":"
  else written ++ ":"

/-- Data that stands behind its key or dash. -/
def inline? (indent : Nat) : Data → Option String
  | .null => some "null"
  | .bool b => some (if b then "true" else "false")
  | .int n => some (toString n)
  | .text s => some (scalar (indent + 2) false s)
  | .list [] => some "[]"
  | .record [] => some "\x7b\x7d"
  | _ => none

mutual

/-- The value of a key at an indentation, with what divides it from the key. -/
def value (indent : Nat) : Data → String
  | .list (d :: rest) => "\n" ++ items indent (d :: rest)
  | .record (f :: rest) => "\n" ++ blanks (indent + 2) ++ fields (indent + 2) (f :: rest)
  | d => " " ++ endLine ((inline? indent d).getD "")

/-- The items of a list, each behind a dash. -/
def items (indent : Nat) : List Data → String
  | [] => ""
  | .list (d :: more) :: rest =>
    blanks indent ++ "- " ++ nested (indent + 2) (d :: more) ++ items indent rest
  | .record (f :: more) :: rest =>
    blanks indent ++ "- " ++ fields (indent + 2) (f :: more) ++ items indent rest
  | d :: rest =>
    blanks indent ++ "- " ++ endLine ((inline? indent d).getD "") ++ items indent rest

/-- The items of a list that stands in an item; the first one follows its dash. -/
def nested (indent : Nat) : List Data → String
  | [] => ""
  | .list (d :: more) :: rest => "- " ++ nested (indent + 2) (d :: more) ++ items indent rest
  | .record (f :: more) :: rest => "- " ++ fields (indent + 2) (f :: more) ++ items indent rest
  | d :: rest => "- " ++ endLine ((inline? indent d).getD "") ++ items indent rest

/-- The fields of a record, the first one where the line stands. -/
def fields (indent : Nat) : List (String × Data) → String
  | [] => ""
  | [(k, d)] => keyLead indent k ++ value indent d
  | (k, d) :: rest =>
    keyLead indent k ++ value indent d ++ blanks indent ++ fields indent rest

end

/-- **The document of a value.** -/
def document : Data → String
  | .list (d :: rest) => items 0 (d :: rest)
  | .record (f :: rest) => fields 0 (f :: rest)
  | d => endLine ((inline? 0 d).getD "")

end RegistryFleet.Yaml
