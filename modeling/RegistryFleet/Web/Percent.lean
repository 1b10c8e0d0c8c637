import RegistryFleet.Text.Digits
import RegistryFleet.Text.Utf8

/-!
# Web/Percent — escaping in addresses

Each part of an address has its own set of characters that are escaped; controls and all characters
beyond ASCII always are, octet by octet.
-/

namespace RegistryFleet.Web

/-- Is the character escaped in every part? -/
def isForeign (c : Char) : Bool := c.toNat < 0x20 || 0x7F ≤ c.toNat

/-- The escape of an octet. -/
def escapeOctet (octet : UInt8) : List Char := '%' :: Text.upperHex 2 octet.toNat

/-- **Escapes the characters of a set** and those that are always escaped. -/
def percentEncode (set : Char → Bool) (cs : List Char) : List Char :=
  cs.flatMap fun c =>
    if isForeign c || set c then (String.utf8EncodeChar c).flatMap escapeOctet else [c]

/-- The octets of a text with escapes; what is no escape stands for itself. -/
def percentDecode : List Char → List UInt8
  | [] => []
  | '%' :: a :: b :: rest =>
    match Text.readNat? 16 [a, b] with
    | some n => UInt8.ofNat n :: percentDecode rest
    | none => String.utf8EncodeChar '%' ++ percentDecode (a :: b :: rest)
  | c :: rest => String.utf8EncodeChar c ++ percentDecode rest

/-- Escaped in fragments. -/
def fragmentSet (c : Char) : Bool := [' ', '"', '<', '>', '`'].contains c

/-- Escaped in queries; with web schemes, so is the apostrophe. -/
def querySet (special : Bool) (c : Char) : Bool :=
  [' ', '"', '#', '<', '>'].contains c || (special && c == '\'')

/-- Escaped in paths. -/
def pathSet (c : Char) : Bool := fragmentSet c || ['#', '?', '\x7b', '\x7d'].contains c

/-- Escaped in user names and passwords. -/
def userinfoSet (c : Char) : Bool :=
  pathSet c || ['/', ':', ';', '=', '@', '[', '\\', ']', '^', '|'].contains c

end RegistryFleet.Web
