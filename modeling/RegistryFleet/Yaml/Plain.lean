import RegistryFleet.Decimal.Binary64
import RegistryFleet.Text.Digits

/-!
# Yaml/Plain — what an unquoted scalar stands for

Unquoted text may stand for nothing, a truth value or a number. A reader needs to know, to refuse a
number where a list is expected; a writer needs to know, to quote a text that would be taken for
something else.
-/

namespace RegistryFleet.Yaml

/-- **What unquoted text stands for.** -/
inductive Plain
  /-- Nothing at all. -/
  | unit
  | bool (value : Bool)
  | int (value : Int)
  | float (value : Decimal.Numeral)
  | infinity (negative : Bool)
  | notANumber
  /-- Just the text. -/
  | text
  deriving DecidableEq, Repr

namespace Plain

/-- Spellings of nothing. -/
def isNull (s : String) : Bool := ["", "null", "Null", "NULL", "~"].contains s

/-- Spellings of the truth values. -/
def bool? (s : String) : Option Bool :=
  if ["true", "True", "TRUE"].contains s then some true
  else if ["false", "False", "FALSE"].contains s then some false
  else none

/-- Digits behind a needless zero: they are text, not a number. -/
def isPaddedNumeral (cs : List Char) : Bool :=
  let digits := match cs with
    | '-' :: rest | '+' :: rest => rest
    | _ => cs
  match digits with
  | '0' :: rest => !rest.isEmpty && rest.all Char.isDigit
  | _ => false

/-- An unsigned whole number in base sixteen, eight, two or ten. -/
def unsigned? : List Char → Option Nat
  | '0' :: 'x' :: rest => Text.readNat? 16 rest
  | '0' :: 'o' :: rest => Text.readNat? 8 rest
  | '0' :: 'b' :: rest => Text.readNat? 2 rest
  | cs => Text.readNat? 10 cs

/-- A whole number of at most 128 bits. -/
def int? (cs : List Char) : Option Int :=
  if isPaddedNumeral cs then none
  else
    match cs with
    | '-' :: rest => do
      let n ← unsigned? rest
      if n ≤ Nat.pow 2 127 then some (-(n : Int)) else none
    | '+' :: rest => do
      let n ← unsigned? rest
      if n < Nat.pow 2 128 then some n else none
    | _ => do
      let n ← unsigned? cs
      if n < Nat.pow 2 128 then some n else none

/-- The digits in front of and behind the point, and what follows. -/
def mantissa? (cs : List Char) : Option (List Char × List Char × List Char) :=
  let whole := cs.takeWhile Char.isDigit
  let rest := cs.dropWhile Char.isDigit
  let (behind, rest) := match rest with
    | '.' :: more => (more.takeWhile Char.isDigit, more.dropWhile Char.isDigit)
    | _ => ([], rest)
  if whole.isEmpty && behind.isEmpty then none else some (whole, behind, rest)

/-- A signed exponent. -/
def exponent? : List Char → Option Int
  | '-' :: cs => (Text.readNat? 10 cs).map fun n => -(n : Int)
  | '+' :: cs => (Text.readNat? 10 cs).map Int.ofNat
  | cs => (Text.readNat? 10 cs).map Int.ofNat

/-- A decimal numeral without sign. -/
def numeral? (cs : List Char) : Option Decimal.Numeral := do
  let (whole, behind, rest) ← mantissa? cs
  let digits ← Text.readNat? 10 (whole ++ behind)
  let exponent ← match rest with
    | [] => some 0
    | 'e' :: more | 'E' :: more => exponent? more
    | _ => none
  return ⟨false, digits, exponent - behind.length⟩

/-- A decimal numeral whose value is a finite double. -/
def float? (cs : List Char) : Option Decimal.Numeral := do
  let x ← match cs with
    | '-' :: rest => (numeral? rest).map fun x => { x with negative := true }
    | '+' :: rest => numeral? rest
    | _ => numeral? cs
  match x.toBinary64? with
  | some _ => some x
  | none => none

/-- Spellings of what is no number. -/
def isNotANumber (s : String) : Bool := [".nan", ".NaN", ".NAN"].contains s

/-- Spellings of infinity, with their sign. -/
def infinity? (s : String) : Option Bool :=
  if [".inf", ".Inf", ".INF", "+.inf", "+.Inf", "+.INF"].contains s then some false
  else if ["-.inf", "-.Inf", "-.INF"].contains s then some true
  else none

/-- **The reading of unquoted text.** -/
def ofText (s : String) : Plain :=
  let cs := s.toList
  if isNull s then .unit
  else match bool? s with
    | some b => .bool b
    | none =>
      match int? cs with
      | some n => .int n
      | none =>
        if isPaddedNumeral cs then .text
        else if isNotANumber s then .notANumber
        else match infinity? s with
          | some negative => .infinity negative
          | none =>
            match float? cs with
            | some x => .float x
            | none => .text

end Plain

end RegistryFleet.Yaml
