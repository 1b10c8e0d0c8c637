/-!
# Text/Base64 — octets as text over sixty-four symbols

Three octets are written as four symbols; a shorter last group is filled up with `=`. Reading is
strict: the padding must be there, and the bits that the last symbol does not use must be zero, so
reading accepts exactly what writing produces.
-/

namespace RegistryFleet.Text.Base64

/-- The symbol of a value below 64. -/
def symbol (v : Nat) : Char :=
  if v < 26 then Char.ofNat ('A'.toNat + v)
  else if v < 52 then Char.ofNat ('a'.toNat + (v - 26))
  else if v < 62 then Char.ofNat ('0'.toNat + (v - 52))
  else if v = 62 then '+' else '/'

/-- The value of a symbol. -/
def value? (c : Char) : Option Nat :=
  if 'A' ≤ c ∧ c ≤ 'Z' then some (c.toNat - 'A'.toNat)
  else if 'a' ≤ c ∧ c ≤ 'z' then some (c.toNat - 'a'.toNat + 26)
  else if '0' ≤ c ∧ c ≤ '9' then some (c.toNat - '0'.toNat + 52)
  else if c = '+' then some 62
  else if c = '/' then some 63
  else none

/-- **Writing** — four symbols for three octets, the last group padded. -/
def encodeList : List UInt8 → List Char
  | [] => []
  | [a] => [symbol (a.toNat / 4), symbol (a.toNat % 4 * 16), '=', '=']
  | [a, b] =>
    [symbol (a.toNat / 4), symbol (a.toNat % 4 * 16 + b.toNat / 16),
      symbol (b.toNat % 16 * 4), '=']
  | a :: b :: c :: rest =>
    symbol (a.toNat / 4) :: symbol (a.toNat % 4 * 16 + b.toNat / 16)
      :: symbol (b.toNat % 16 * 4 + c.toNat / 64) :: symbol (c.toNat % 64) :: encodeList rest

/-- The octets of a last group, if it is well padded. -/
def decodeLast? (w x y z : Char) : Option (List UInt8) := do
  let i ← value? w
  let j ← value? x
  let first := UInt8.ofNat (i * 4 + j / 16)
  match value? y with
  | none =>
    if y = '=' ∧ z = '=' ∧ j % 16 = 0 then some [first] else none
  | some k =>
    let second := UInt8.ofNat (j % 16 * 16 + k / 4)
    match value? z with
    | none => if z = '=' ∧ k % 4 = 0 then some [first, second] else none
    | some l => some [first, second, UInt8.ofNat (k % 4 * 64 + l)]

/-- The octets of a full group. -/
def decodeFull? (w x y z : Char) : Option (List UInt8) := do
  let i ← value? w
  let j ← value? x
  let k ← value? y
  let l ← value? z
  return [UInt8.ofNat (i * 4 + j / 16), UInt8.ofNat (j % 16 * 16 + k / 4),
    UInt8.ofNat (k % 4 * 64 + l)]

/-- **Reading**, strictly. -/
def decodeList? : List Char → Option (List UInt8)
  | [] => some []
  | [w, x, y, z] => decodeLast? w x y z
  | w :: x :: y :: z :: rest => do
    let group ← decodeFull? w x y z
    let others ← decodeList? rest
    return group ++ others
  | _ => none

/-- The symbols for the octets of a text. -/
def encode (s : String) : String :=
  String.ofList (encodeList s.toUTF8.data.toList)

/-- The octets that the symbols write. -/
def decode? (s : String) : Option (List UInt8) :=
  decodeList? s.toList

end RegistryFleet.Text.Base64
