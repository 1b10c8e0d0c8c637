import RegistryFleet.Text.Digits
import RegistryFleet.Text.Visible

/-!
# Text/Quoted — text between double quotes, for messages

Messages show an offending text between double quotes, on one line: the quote, the backslash and
the usual controls by short escapes, every other hidden character by its code point in braces.
-/

namespace RegistryFleet.Text

/-- How one character appears between the quotes. -/
def quotedChar (c : Char) : List Char :=
  match c with
  | '\x00' => ['\\', '0']
  | '\t' => ['\\', 't']
  | '\n' => ['\\', 'n']
  | '\r' => ['\\', 'r']
  | '"' => ['\\', '"']
  | '\\' => ['\\', '\\']
  | c =>
    if isVisible c then [c]
    else ['\\', 'u', '\x7b'] ++ lowerHex (hexWidth c.toNat) c.toNat ++ ['\x7d']

/-- **The text between double quotes**, on one line. -/
def quoted (s : String) : String :=
  String.ofList ('"' :: s.toList.flatMap quotedChar ++ ['"'])

end RegistryFleet.Text
