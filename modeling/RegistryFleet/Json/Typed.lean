import RegistryFleet.Json.Node
import RegistryFleet.Keyed
import RegistryFleet.Mismatch

/-!
# Json/Typed — JSON text read as typed values

A record may also be written as a list of its fields in their order. Fields that are not known are
passed over, but no field may stand twice.
-/

namespace RegistryFleet.Json

/-- **What is wrong with a text.** -/
inductive Fault
  /-- It is not well formed. -/
  | malformed
  /-- It differs from what is wanted. -/
  | mismatch (m : Mismatch)

/-- The wording. -/
def Fault.message : Fault → String
  | .malformed => "malformed document"
  | .mismatch m => m.message

/-- **A reading** of a value. -/
abbrev Typed (α : Type) := Node → Except Fault α

namespace Typed

variable {α β σ : Type}

/-- A refusal. -/
def refuse (m : Mismatch) : Except Fault α := .error (.mismatch m)

/-- The refusal of a value for what it is. -/
def refusal (n : Node) (wanted : String) : Except Fault α :=
  match n with
  | .null => refuse (.wrongType (.nothing "null") wanted)
  | .bool b => refuse (.wrongType (.bool b) wanted)
  | .int i => refuse (.wrongType (.int i) wanted)
  | .float x => refuse (.wrongType (.float x.brief) wanted)
  | .text s => refuse (.wrongType (.text s) wanted)
  | .list _ => refuse (.wrongType .list wanted)
  | .record .. | .unnamed _ => refuse (.wrongType .record wanted)
  | .hole | .unreadable => .error .malformed

/-- **A text.** -/
def text : Typed String
  | .text s => .ok s
  | n => refusal n "a string"

/-- A truth value. -/
def bool : Typed Bool
  | .bool b => .ok b
  | n => refusal n "a boolean"

/-- A whole number within bounds. -/
def int (least greatest : Int) (wanted : String) : Typed Int
  | .int i =>
    if least ≤ i ∧ i ≤ greatest then .ok i else refuse (.wrongValue (.int i) wanted)
  | n => refusal n wanted

/-- A value that may be null. -/
def optional (read : Typed α) : Typed (Option α)
  | .null => .ok none
  | n => (read n).map some

/-- Reads one item after another. -/
def items (read : Typed α) : List Node → Except Fault (List α)
  | [] => .ok []
  | n :: ns => do return (← read n) :: (← items read ns)

/-- **A list.** -/
def list (read : Typed α) : Typed (List α)
  | .list ns => items read ns
  | n => refusal n "a sequence"

/-- Reads the entries of a map; the last of several with one key counts. -/
def mapEntries (read : Typed α) : Keyed α → List (String × Node) → Except Fault (Keyed α)
  | m, [] => .ok m
  | m, (k, n) :: rest => do mapEntries read (m.insert k (← read n)) rest

/-- **A map.** -/
def map (read : Typed α) : Typed (Keyed α)
  | .record fs brokenOff => do
    let m ← mapEntries read Keyed.empty fs
    if brokenOff then .error .malformed else return m
  | .unnamed fs => do
    let _ ← mapEntries read Keyed.empty fs
    .error .malformed
  | n => refusal n "a map"

/-! ## Records -/

/-- Passes a value over. -/
def skip (n : Node) : Except Fault Unit := if n.hasHole then .error .malformed else .ok ()

/-- Reads a field that may be there once. -/
def once (seen : Option β) (name : String) (read : Typed β) (put : β → α) : Typed α := fun n =>
  if seen.isSome then refuse (.duplicateField name) else (read n).map put

/-- The value of a field that must be there. -/
def required (seen : Option α) (name : String) : Except Fault α :=
  match seen with
  | some a => .ok a
  | none => refuse (.missingField name)

/-- Reads the fields of a record into a state. -/
def fields (known : σ → String → Option (Typed σ)) : σ → List (String × Node) → Except Fault σ
  | state, [] => .ok state
  | state, (name, n) :: rest =>
    match known state name with
    | some read =>
      match read n with
      | .ok next => fields known next rest
      | .error f => .error f
    | none =>
      match skip n with
      | .ok () => fields known state rest
      | .error f => .error f

/-- Reads the fields of a record that is written as a list, in their order. A field that may be left
out may be missing at the end, and nothing may follow the last. -/
def inOrder (known : σ → String → Option (Typed σ)) (wanted : String) :
    (done : Nat) → List (String × Bool) → σ → List Node → Except Fault σ
  | _, [], state, [] => .ok state
  | _, [], _, _ :: _ => .error .malformed
  | done, (name, _) :: order, state, n :: ns =>
    match known state name with
    | some read =>
      match read n with
      | .ok next => inOrder known wanted (done + 1) order next ns
      | .error f => .error f
    | none => .error .malformed
  | done, (_, optional) :: order, state, [] =>
    if optional then inOrder known wanted (done + 1) order state []
    else refuse (.wrongLength done wanted)

/-- The words for a record with so many fields. -/
def withElements (wanted : String) (count : Nat) : String :=
  wanted ++ " with " ++ toString count ++ (if count = 1 then " element" else " elements")

/-- **A record** of the given fields, read into a state and finished at its end. With each field
stands whether it may be left out. -/
def record (wanted : String) (order : List (String × Bool)) (start : σ)
    (known : σ → String → Option (Typed σ)) (finish : σ → Except Fault α) : Typed α
  | .record fs brokenOff => do
    let state ← fields known start fs
    if brokenOff then .error .malformed else finish state
  | .unnamed fs => do
    let _ ← fields known start fs
    .error .malformed
  | .list ns => do
    finish (← inOrder known (withElements wanted order.length) 0 order start ns)
  | n => refusal n wanted

end Typed

/-- **A text read as a value**: faults of the value come first, then whatever else is wrong with the
text. -/
def Typed.read {α : Type} (typed : Typed α) (text : String) : Except Fault α := do
  let (n, complete) := ofText text
  let a ← typed n
  if complete then return a else .error .malformed

end RegistryFleet.Json
