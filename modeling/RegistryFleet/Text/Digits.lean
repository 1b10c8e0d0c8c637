/-!
# Text/Digits — numerals in a base

Reading a digit in a base, reading a run of digits as a number, and writing a number with a fixed
or the least number of digits.
-/

namespace RegistryFleet.Text

/-- The value of a digit below 36, of either case. -/
def digitValue? (c : Char) : Option Nat :=
  if '0' ≤ c ∧ c ≤ '9' then some (c.toNat - '0'.toNat)
  else if 'a' ≤ c ∧ c ≤ 'z' then some (c.toNat - 'a'.toNat + 10)
  else if 'A' ≤ c ∧ c ≤ 'Z' then some (c.toNat - 'A'.toNat + 10)
  else none

/-- Reads digits behind a number already read. -/
def continueNat? (base : Nat) (n : Nat) : List Char → Option Nat
  | [] => some n
  | c :: cs =>
    match digitValue? c with
    | some d => if d < base then continueNat? base (n * base + d) cs else none
    | none => none

/-- **The number a nonempty run of digits writes** in the base. -/
def readNat? (base : Nat) : List Char → Option Nat
  | [] => none
  | cs => continueNat? base 0 cs

/-- The digit of a value below 36, in upper case. -/
def upperDigit (d : Nat) : Char :=
  if d < 10 then Char.ofNat ('0'.toNat + d) else Char.ofNat ('A'.toNat + (d - 10))

/-- The digit of a value below 36, in lower case. -/
def lowerDigit (d : Nat) : Char :=
  if d < 10 then Char.ofNat ('0'.toNat + d) else Char.ofNat ('a'.toNat + (d - 10))

/-- The last `width` digits of a number in base sixteen, in upper case. -/
def upperHex : (width : Nat) → Nat → List Char
  | 0, _ => []
  | width + 1, n => upperHex width (n / 16) ++ [upperDigit (n % 16)]

/-- The last `width` digits of a number in base sixteen, in lower case. -/
def lowerHex : (width : Nat) → Nat → List Char
  | 0, _ => []
  | width + 1, n => lowerHex width (n / 16) ++ [lowerDigit (n % 16)]

/-- How many digits of base sixteen a code point needs. -/
def hexWidth (n : Nat) : Nat :=
  if n < 0x10 then 1 else if n < 0x100 then 2 else if n < 0x1000 then 3
  else if n < 0x10000 then 4 else if n < 0x100000 then 5 else 6

theorem length_upperHex : ∀ (width n : Nat), (upperHex width n).length = width
  | 0, _ => rfl
  | width + 1, n => by simp [upperHex, length_upperHex width]

theorem length_lowerHex : ∀ (width n : Nat), (lowerHex width n).length = width
  | 0, _ => rfl
  | width + 1, n => by simp [lowerHex, length_lowerHex width]

end RegistryFleet.Text
