import RegistryFleet.Keyed
import RegistryFleet.Mismatch
import RegistryFleet.Yaml.Node
import RegistryFleet.Yaml.Plain

/-!
# Yaml/Typed — documents read as typed values

A **reading** takes a node to a value, or says what is wrong and where. A fault is placed at the
innermost value that is being read when it is found; a fault of a record as a whole, such as a field
that is missing, is placed at the record.
-/

namespace RegistryFleet.Yaml

/-- **What is wrong with a document.** -/
inductive Fault
  /-- It is no document at all, or not one. -/
  | malformed
  /-- It differs from what is wanted, at a place once that is known. -/
  | mismatch (place : Option String) (m : Mismatch)

namespace Fault

/-- The path of the whole document. -/
def wholePath : String := "."

/-- The wording. -/
def message : Fault → String
  | .malformed => "malformed document"
  | .mismatch none m => m.message
  | .mismatch (some path) m =>
    if path = wholePath then m.message else path ++ ": " ++ m.message

/-- The fault, placed unless it is already. -/
def placeAt (path : String) : Fault → Fault
  | .mismatch none m => .mismatch (some path) m
  | f => f

end Fault

/-- **A reading** of a node at a path of a document. -/
abbrev Typed (α : Type) := Document → (path : String) → Node → Except Fault α

namespace Typed

variable {α β : Type}

/-- A fault not yet placed. -/
def refuse (m : Mismatch) : Except Fault α := .error (.mismatch none m)

/-- Places the faults. -/
def placed (path : String) (r : Except Fault α) : Except Fault α := r.mapError (Fault.placeAt path)

/-- The path of an item. -/
def itemPath (path : String) (i : Nat) : String := path ++ "[" ++ toString i ++ "]"

/-- The path of a field; a key that is not written out has no name. -/
def fieldPath (path : String) (key : Node) : String :=
  let parent := if path = Fault.wholePath then "" else path ++ "."
  match key with
  | .scalar _ _ name => if path = Fault.wholePath then name else parent ++ name
  | _ => parent ++ "?"

/-! ## Refusals -/

/-- A number as refusals show it: positional, with a point. -/
def floatText (x : Decimal.Numeral) : String :=
  match x.toBinary64? with
  | none => "inf"
  | some b =>
    let s := { b.shortest with negative := x.negative }.positional
    if s.toList.contains '.' then s else s ++ ".0"

/-- An infinity as refusals show it. -/
def infinityText (negative : Bool) : String := if negative then "-inf" else "inf"

/-- What an unquoted scalar is. -/
def seenPlain (s : String) : Seen :=
  match Plain.ofText s with
  | .unit => .nothing "unit value"
  | .bool b => .bool b
  | .int n => Seen.ofInt n
  | .float x => .float (floatText x)
  | .infinity negative => .float (infinityText negative)
  | .notANumber => .float "NaN"
  | .text => .text s

/-- The tag of a kind of scalar. -/
def coreTag (kind : String) : String := "tag:yaml.org,2002:" ++ kind

/-- What a scalar is that a tag marks as of some kind: the kind's name, and the value if it is of
that kind. -/
def seenTagged? (tag s : String) : Option (String × Option Seen) :=
  if tag = coreTag "bool" then some ("a boolean", (Plain.bool? s).map .bool)
  else if tag = coreTag "int" then some ("an integer", (Plain.int? s.toList).map Seen.ofInt)
  else if tag = coreTag "float" then
    some ("a float",
      if Plain.isNotANumber s then some (.float "NaN")
      else
        ((Plain.infinity? s).map fun negative => .float (infinityText negative)).or
          ((Plain.float? s.toList).map fun x => .float (floatText x)))
  else if tag = coreTag "null" then
    some ("null", if Plain.isNull s && s != "" then some (.nothing "unit value") else none)
  else none

/-- The refusal of a scalar: its tag may say of which kind it is, and then it must be. -/
def refuseScalar (tag : Option String) (plain : Bool) (s : String) (wanted : String) : Mismatch :=
  match tag with
  | none => .wrongType (if plain then seenPlain s else .text s) wanted
  | some t =>
    match seenTagged? t s with
    | some (_, some seen) => .wrongType seen wanted
    | some (kind, none) => .wrongValue (.text s) kind
    | none => .wrongType (if t.startsWith "!" && plain then seenPlain s else .text s) wanted

/-- The refusal of a node. -/
def refusal (n : Node) (wanted : String) : Except Fault α :=
  match n with
  | .scalar tag plain s => refuse (refuseScalar tag plain s wanted)
  | .list .. => refuse (.wrongType .list wanted)
  | .record .. => refuse (.wrongType .record wanted)
  | _ => .error .malformed

/-- May the node stand for an empty collection? -/
def isEmptyValue : Node → Bool
  | .scalar _ plain s => plain && s == ""
  | .void => true
  | _ => false

/-! ## Scalars -/

/-- **A text**: any scalar, just as it is written. -/
def text : Typed String := fun d path n =>
  placed path <|
    match d.follow n with
    | .scalar _ _ s => .ok s
    | n => refusal n "a string"

/-- A truth value. -/
def bool : Typed Bool := fun d path n =>
  placed path <|
    match d.follow n with
    | .scalar tag plain s =>
      match Plain.bool? s with
      | some b => if plain then .ok b else refuse (refuseScalar tag plain s "a boolean")
      | none => refuse (refuseScalar tag plain s "a boolean")
    | n => refusal n "a boolean"

/-- A whole number of 64 bits. -/
def int64 : Typed Int := fun d path n =>
  placed path <|
    match d.follow n with
    | .scalar tag plain s =>
      match Plain.int? s.toList with
      | some i =>
        if plain && -(Nat.pow 2 63 : Int) ≤ i && i < (Nat.pow 2 63 : Int) then .ok i
        else refuse (refuseScalar tag plain s "i64")
      | none => refuse (refuseScalar tag plain s "i64")
    | n => refusal n "i64"

/-- **A value that may be left out**: nothing, if nothing is written. A mark that it is nothing
must be true. -/
def optional (read : Typed α) : Typed (Option α) := fun d path n =>
  match d.follow n with
  | .void => .ok none
  | .scalar tag plain s =>
    if !plain then (read d path n).map some
    else
      match tag with
      | none => if Plain.isNull s then .ok none else (read d path n).map some
      | some t =>
        if t = coreTag "null" then
          if Plain.isNull s && s ≠ "" then .ok none
          else refuse (.wrongValue (.text s) "null")
        else (read d path n).map some
  | _ => (read d path n).map some

/-- The name that a local tag gives. -/
def localTag? (tag : Option String) : Option String :=
  match tag.map String.toList with
  | some ('!' :: rest) => some (String.ofList (if rest.isEmpty then ['!'] else rest))
  | _ => none

/-- The variant of a name. -/
def variantOf (variants : List (String × α)) (name : String) : Except Fault α :=
  match variants.find? fun v => v.1 == name with
  | some (_, a) => .ok a
  | none => refuse (.unknownVariant name (variants.map (·.1)))

/-- Nothing, as a variant given by its tag must hold. -/
def nothing (n : Node) : Except Fault Unit :=
  match n with
  | .scalar tag plain s =>
    if plain && Plain.isNull s then .ok () else refuse (refuseScalar tag plain s "unit")
  | .void => .ok ()
  | n => refusal n "unit"

/-- A variant given by a tag: a wrong name counts against the record around it. -/
def tagged (variants : List (String × α)) (path name : String) (n : Node) : Except Fault α := do
  let a ← variantOf variants name
  placed path (nothing n)
  return a

/-- **One of several names**, written out or as a local tag. -/
def variant (variants : List (String × α)) : Typed α := fun d path n =>
  let wanted := "a YAML tag starting with '!'"
  match d.follow n with
  | .scalar tag plain s =>
    match localTag? tag with
    | some name => tagged variants path name (.scalar tag plain s)
    | none => placed path (variantOf variants s)
  | .record tag fields =>
    match localTag? tag with
    | some name => tagged variants path name (.record tag fields)
    | none => placed path (refuse (.wrongType .record wanted))
  | .list tag items =>
    match localTag? tag with
    | some name => tagged variants path name (.list tag items)
    | none => placed path (refuse (.wrongType .list wanted))
  | _ => .error .malformed

/-! ## Collections -/

/-- Reads the items from the `i`-th on. -/
def items (read : Typed α) (d : Document) (path : String) :
    (i : Nat) → List Node → Except Fault (List α)
  | _, [] => .ok []
  | i, n :: ns => do
    let a ← read d (itemPath path i) n
    let as ← items read d path (i + 1) ns
    return a :: as

/-- **A list.** -/
def list (read : Typed α) : Typed (List α) := fun d path n =>
  placed path <|
    match d.follow n with
    | .list _ ns => items read d path 0 ns
    | n => if isEmptyValue n then .ok [] else refusal n "a sequence"

/-- Reads the fields of a record into a state, one after another. A field that is not known is
passed over. -/
def fields (known : α → String → Option (Typed α)) (d : Document) (path : String) :
    α → List (Node × Node) → Except Fault α
  | state, [] => .ok state
  | state, (k, v) :: rest =>
    match d.follow k with
    | .scalar _ _ name =>
      match known state name with
      | some read =>
        match read d (fieldPath path k) v with
        | .ok next => fields known d path next rest
        | .error f => .error f
      | none => if v.hasHole then .error .malformed else fields known d path state rest
    | k => placed path (refusal k "field identifier")

/-- **A record**, read field by field into a state and finished at its end. -/
def record (wanted : String) (start : β) (known : β → String → Option (Typed β))
    (finish : β → Except Fault α) : Typed α := fun d path n =>
  placed path <|
    match d.follow n with
    | .record _ fs => do finish (← fields known d path start fs)
    | n => if isEmptyValue n then finish start else refusal n wanted

/-- Reads the entries of a map; the last of several with one key counts. -/
def mapEntries (read : Typed α) (d : Document) (path : String) :
    Keyed α → List (Node × Node) → Except Fault (Keyed α)
  | m, [] => .ok m
  | m, (k, v) :: rest => do
    let key ← text d path k
    let a ← read d (fieldPath path k) v
    mapEntries read d path (m.insert key a) rest

/-- **A map** with texts as keys. -/
def map (read : Typed α) : Typed (Keyed α) := fun d path n =>
  placed path <|
    match d.follow n with
    | .record _ fs => mapEntries read d path Keyed.empty fs
    | n => if isEmptyValue n then .ok Keyed.empty else refusal n "a map"

/-! ## Fields of records -/

/-- Reads a field that may be there once. -/
def once (seen : Option β) (name : String) (read : Typed β) (put : β → α) : Typed α :=
  fun d path n =>
    if seen.isSome then refuse (.duplicateField name) else (read d path n).map put

/-- The value of a field that must be there. -/
def required (seen : Option α) (name : String) : Except Fault α :=
  match seen with
  | some a => .ok a
  | none => refuse (.missingField name)

end Typed

/-- **A text read as a value**: faults of the value come first, then whatever else is wrong with the
text. -/
def Typed.read {α : Type} (typed : Typed α) (text : String) : Except Fault α := do
  let d := Document.ofText text
  let a ← typed d Fault.wholePath d.root
  if d.complete then return a else .error .malformed

end RegistryFleet.Yaml
