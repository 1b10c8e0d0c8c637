import RegistryFleet.Text.Blank

/-!
# Decimal/Binary64 — the shortest decimal that reads back as a double

A decimal numeral is read as the nearest double, ties going to the even mantissa, and a double is
written with the fewest digits that read back as itself, the nearest of those to its value. All of
it is arithmetic of natural numbers.
-/

namespace RegistryFleet.Decimal

/-- The numeral `digits · 10 ^ exponent`, with a sign. -/
structure Numeral where
  negative : Bool
  digits : Nat
  exponent : Int
  deriving DecidableEq, Repr

/-- **A finite double**, `mantissa · 2 ^ exponent`. -/
structure Binary64 where
  mantissa : Nat
  exponent : Int
  deriving DecidableEq, Repr

/-- The quotient rounded to the nearest number, ties to the even one. -/
def roundQuotient (num den : Nat) : Nat :=
  let q := num / den
  let twice := 2 * (num % den)
  if twice < den then q
  else if den < twice then q + 1
  else q + q % 2

/-- The quotient times a power of two, as a quotient. -/
def shiftQuotient (num den : Nat) (shift : Int) : Nat × Nat :=
  if 0 ≤ shift then (num * Nat.pow 2 shift.toNat, den) else (num, den * Nat.pow 2 (-shift).toNat)

/-- The least exponent of a double. -/
def leastExponent : Int := -1074

/-- The double of a nonnegative quotient, its exponent not yet bounded above. -/
def ofQuotient (num den : Nat) : Binary64 :=
  if num = 0 then ⟨0, leastExponent⟩
  else
    let guess : Int := (num.log2 : Int) - den.log2 - 53
    let low := max guess leastExponent
    let (n, d) := shiftQuotient num den (-low)
    let exponent := if n / d < Nat.pow 2 53 then low else low + 1
    let (n, d) := shiftQuotient num den (-exponent)
    let m := roundQuotient n d
    if m < Nat.pow 2 53 then ⟨m, exponent⟩ else ⟨m / 2, exponent + 1⟩

/-- A numeral with more digits than this in front of the point is no finite double. -/
def widestNumeral : Int := 400

/-- **The nearest double** of a numeral without its sign; none where that is not finite. -/
def Numeral.toBinary64? (x : Numeral) : Option Binary64 :=
  let size : Int := (toString x.digits).length + x.exponent
  if x.digits = 0 ∨ size < -widestNumeral then some ⟨0, leastExponent⟩
  else if size > widestNumeral then none
  else
    let b :=
      if 0 ≤ x.exponent then ofQuotient (x.digits * Nat.pow 10 x.exponent.toNat) 1
      else ofQuotient x.digits (Nat.pow 10 (-x.exponent).toNat)
    if b.exponent > 971 then none else some b

namespace Binary64

/-- Where `n / d` lies relative to the doubles that read back as `b`: does it read back? -/
def readsBack (b : Binary64) (num den : Nat) : Bool :=
  let c := ofQuotient num den
  c.mantissa == b.mantissa && c.exponent == b.exponent

/-- The decimal with `places` digits behind the point (or tens dropped, if negative) that is nearest
to the double, when one of its neighbours on that grid reads back. -/
def onGrid? (b : Binary64) (places : Int) : Option Numeral :=
  let (n, d) :=
    if 0 ≤ b.exponent then (b.mantissa * Nat.pow 2 b.exponent.toNat, 1)
    else (b.mantissa, Nat.pow 2 (-b.exponent).toNat)
  let (n, d) :=
    if 0 ≤ places then (n * Nat.pow 10 places.toNat, d) else (n, d * Nat.pow 10 (-places).toNat)
  let value (k : Nat) : Nat × Nat :=
    if 0 ≤ places then (k, Nat.pow 10 places.toNat) else (k * Nat.pow 10 (-places).toNat, 1)
  let near := roundQuotient n d
  let far := if near * d ≤ n then near + 1 else near - 1
  if b.readsBack (value near).1 (value near).2 then some ⟨false, near, -places⟩
  else if b.readsBack (value far).1 (value far).2 then some ⟨false, far, -places⟩
  else none

/-- How many digits the whole part of the double has, zero or less if it is below one: the power of
ten above it. -/
def magnitude (b : Binary64) : Int :=
  let (n, d) :=
    if 0 ≤ b.exponent then (b.mantissa * Nat.pow 2 b.exponent.toNat, 1)
    else (b.mantissa, Nat.pow 2 (-b.exponent).toNat)
  if d ≤ n then ((toString (n / d)).length : Int)
  else 1 - ((toString ((d - 1) / max n 1)).length : Int)

/-- Tries one digit after the other, up to seventeen. -/
def search (b : Binary64) : (left : Nat) → (digits : Nat) → Numeral
  | 0, digits => (b.onGrid? (digits - b.magnitude)).getD ⟨false, 0, 0⟩
  | left + 1, digits =>
    match b.onGrid? (digits - b.magnitude) with
    | some x => x
    | none => b.search left (digits + 1)

/-- **The shortest numeral** that reads back as the double. -/
def shortest (b : Binary64) : Numeral :=
  if b.mantissa = 0 then ⟨false, 0, 0⟩ else b.search 17 1

end Binary64

/-- The numeral in positional notation. -/
def Numeral.positional (x : Numeral) : String :=
  let sign := if x.negative then "-" else ""
  let digits := toString x.digits
  if 0 ≤ x.exponent then sign ++ digits ++ "".pushn '0' x.exponent.toNat
  else
    let places := (-x.exponent).toNat
    let padded := "".pushn '0' (places + 1 - digits.length) ++ digits
    let cs := padded.toList
    let whole := String.ofList (cs.take (cs.length - places))
    let behind := Text.dropEndWhile (· == '0') (cs.drop (cs.length - places))
    if behind.isEmpty then sign ++ whole else sign ++ whole ++ "." ++ String.ofList behind

/-- **The number as data formats write it**: its shortest numeral, positional from 1e-5 up to 1e16
and with an exponent beyond, never without point or exponent. -/
def Numeral.brief (x : Numeral) : String :=
  let y : Numeral := match x.toBinary64? with
    | some b => { b.shortest with negative := x.negative }
    | none => x
  let digits := toString y.digits
  let point : Int := digits.length + y.exponent
  if y.digits = 0 then (if y.negative then "-0.0" else "0.0")
  else if -5 < point ∧ point ≤ 16 then
    if 0 ≤ y.exponent then y.positional ++ ".0" else y.positional
  else
    let sign := if y.negative then "-" else ""
    let behind := String.ofList (digits.toList.drop 1)
    sign ++ String.ofList (digits.toList.take 1) ++ (if behind = "" then "" else "." ++ behind)
      ++ "e" ++ toString (point - 1)

end RegistryFleet.Decimal
