/-!
# Text/Utf8 — octets read as text

Strict reading refuses ill-formed octets. Lenient reading puts one replacement character for each
maximal ill-formed stretch: for the longest start of a well-formed sequence that is broken off, or
for a single octet that starts none.
-/

namespace RegistryFleet.Text.Utf8

/-- The text that the octets encode, if they are well formed. -/
def decode? (octets : List UInt8) : Option String :=
  String.fromUTF8? ⟨octets.toArray⟩

/-- The character put for an ill-formed stretch. -/
def replacement : Char := '\uFFFD'

/-- Where the second octet of a sequence must lie, how many octets follow the first, and the bits
the first contributes. -/
def lead? (b : Nat) : Option (Nat × Nat × Nat × Nat) :=
  if 0xC2 ≤ b ∧ b ≤ 0xDF then some (0x80, 0xBF, 1, b - 0xC0)
  else if b = 0xE0 then some (0xA0, 0xBF, 2, 0)
  else if b = 0xED then some (0x80, 0x9F, 2, 0xD)
  else if 0xE1 ≤ b ∧ b ≤ 0xEF then some (0x80, 0xBF, 2, b - 0xE0)
  else if b = 0xF0 then some (0x90, 0xBF, 3, 0)
  else if b = 0xF4 then some (0x80, 0x8F, 3, 4)
  else if 0xF1 ≤ b ∧ b ≤ 0xF3 then some (0x80, 0xBF, 3, b - 0xF0)
  else none

/-- What a reader has seen of the character it is in. -/
inductive Pending
  /-- Between characters. -/
  | none
  /-- So many octets missing, the next one bounded, and the bits so far. -/
  | within (missing low high bits : Nat)

/-- Reads the octets from a pending character on. -/
def decodeFrom (pending : Pending) : List UInt8 → List Char
  | [] =>
    match pending with
    | .none => []
    | .within .. => [replacement]
  | octet :: rest =>
    let b := octet.toNat
    let start : List Char :=
      if b < 0x80 then Char.ofNat b :: decodeFrom .none rest
      else match lead? b with
        | some (low, high, missing, bits) => decodeFrom (.within missing low high bits) rest
        | Option.none => replacement :: decodeFrom .none rest
    match pending with
    | .none => start
    | .within missing low high bits =>
      if low ≤ b ∧ b ≤ high then
        let bits := bits * 64 + b % 64
        if missing ≤ 1 then Char.ofNat bits :: decodeFrom .none rest
        else decodeFrom (.within (missing - 1) 0x80 0xBF bits) rest
      else replacement :: start

/-- **Lenient reading** — every octet sequence has a text. -/
def decodeLenient (octets : List UInt8) : String :=
  String.ofList (decodeFrom .none octets)

end RegistryFleet.Text.Utf8
