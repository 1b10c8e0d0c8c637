import RegistryFleet.Text.Quoted

/-!
# Mismatch — how a document differs from what is wanted

A document may be well formed and still not hold what its reader wants. Each way to differ has one
wording, for all document formats.
-/

namespace RegistryFleet

/-- **What a value is**, in the words of a refusal. -/
inductive Seen
  | nothing (word : String)
  | bool (value : Bool)
  | int (value : Int)
  /-- A whole number of more than 64 bits. -/
  | wideInt (value : Int)
  /-- A number with a point or an exponent, as it is shown. -/
  | float (shown : String)
  | text (value : String)
  | list
  | record

namespace Seen

/-- The wording. -/
def message : Seen → String
  | .nothing word => word
  | .bool b => "boolean `" ++ toString b ++ "`"
  | .int n => "integer `" ++ toString n ++ "`"
  | .wideInt n => "integer `" ++ toString n ++ "` as " ++ (if n < 0 then "i128" else "u128")
  | .float shown => "floating point `" ++ shown ++ "`"
  | .text s => "string " ++ Text.quoted s
  | .list => "sequence"
  | .record => "map"

/-- A whole number. -/
def ofInt (n : Int) : Seen :=
  if -(Nat.pow 2 63 : Int) ≤ n ∧ n < (Nat.pow 2 64 : Int) then .int n else .wideInt n

end Seen

/-- **How a document differs.** -/
inductive Mismatch
  | missingField (name : String)
  | duplicateField (name : String)
  | unknownVariant (got : String) (known : List String)
  | wrongType (got : Seen) (wanted : String)
  | wrongValue (got : Seen) (wanted : String)
  | wrongLength (got : Nat) (wanted : String)

namespace Mismatch

/-- The names that are known, as alternatives. -/
def alternatives : List String → String
  | [] => "there are no variants"
  | [a] => "expected `" ++ a ++ "`"
  | [a, b] => "expected `" ++ a ++ "` or `" ++ b ++ "`"
  | names => "expected one of " ++ ", ".intercalate (names.map fun n => "`" ++ n ++ "`")

/-- The wording. -/
def message : Mismatch → String
  | .missingField name => "missing field `" ++ name ++ "`"
  | .duplicateField name => "duplicate field `" ++ name ++ "`"
  | .unknownVariant got known => "unknown variant `" ++ got ++ "`, " ++ alternatives known
  | .wrongType got wanted => "invalid type: " ++ got.message ++ ", expected " ++ wanted
  | .wrongValue got wanted => "invalid value: " ++ got.message ++ ", expected " ++ wanted
  | .wrongLength got wanted => "invalid length " ++ toString got ++ ", expected " ++ wanted

end Mismatch

end RegistryFleet
