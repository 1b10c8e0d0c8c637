import RegistryFleet.Reconcile.Failure

/-!
# Command/Complaint — why a command ended without success

A complaint says what could not be done, and why, from the nearest cause to the farthest.
-/

namespace RegistryFleet.Command

/-- **A complaint.** -/
structure Complaint where
  text : String
  causes : List String
  deriving DecidableEq, Repr

namespace Complaint

/-- A complaint without causes. -/
def plain (text : String) : Complaint := ⟨text, []⟩

/-- The causes of a failure: its text, and what the operating system said. -/
def causesOf : Failure → List String
  | .file path e => [(Failure.file path e).message, e.message]
  | failure => [failure.message]

/-- A complaint about a failure of the fleet. -/
def ofError (text : String) (e : Error) : Complaint := ⟨text, [e.message]⟩

/-- A complaint about a failure of the engine. -/
def ofFailure (text : String) (f : Failure) : Complaint := ⟨text, causesOf f⟩

/-- A text whose lines after the first are set in. -/
def indented (first rest text : String) : String :=
  first ++ ("\n" ++ rest).intercalate ((text.toList.splitOn '\n').map String.ofList)

/-- A number that ends in the sixth column. -/
def numberMark (n : Nat) : String :=
  let digits := toString n
  "".pushn ' ' (5 - digits.length) ++ digits ++ ": "

/-- The causes, numbered from a number on. -/
def numbered : Nat → List String → String
  | _, [] => ""
  | n, cause :: rest =>
    "\n" ++ indented (numberMark n) ("".pushn ' ' 7) cause ++ numbered (n + 1) rest

/-- The causes; a single one has no number. -/
def causeText : List String → String
  | [] => ""
  | [cause] => "\n\nCaused by:\n" ++ indented "    " "    " cause
  | causes => "\n\nCaused by:" ++ numbered 0 causes

/-- **The wording**, with a line break at the end. -/
def message (c : Complaint) : String := "Error: " ++ c.text ++ causeText c.causes ++ "\n"

end Complaint

end RegistryFleet.Command
