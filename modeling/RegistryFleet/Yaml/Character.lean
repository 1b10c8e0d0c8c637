/-!
# Yaml/Character — the classes of characters that the format knows
-/

namespace RegistryFleet.Yaml

/-- The characters that break a line. -/
def isBreak (c : Char) : Bool :=
  c == '\n' || c == '\r' || c.toNat == 0x85 || c.toNat == 0x2028 || c.toNat == 0x2029

/-- Blanks, breaks and NUL. -/
def isBlankOrBreak (c : Char) : Bool :=
  c == ' ' || c == '\t' || c.toNat == 0 || isBreak c

/-- The characters that stand for themselves outside double quotes. -/
def isPrintable (c : Char) : Bool :=
  let n := c.toNat
  n == 0x0A || (0x20 ≤ n && n ≤ 0x7E) || (0xA0 ≤ n && n ≤ 0xD7FF)
    || (0xE000 ≤ n && n ≤ 0xFFFD && n != 0xFEFF)

/-- Spaces and tabs. -/
def isBlankChar (c : Char) : Bool := c == ' ' || c == '\t'

/-- The characters of names: of anchors, handles and directives. -/
def isNameChar (c : Char) : Bool := c.isAlphanum || c == '_' || c == '-'

/-- The characters that a document may contain at all. -/
def isAllowed (c : Char) : Bool :=
  let n := c.toNat
  n == 9 || n == 10 || n == 13 || (0x20 ≤ n && n ≤ 0x7E) || n == 0x85
    || (0xA0 ≤ n && n ≤ 0xD7FF) || (0xE000 ≤ n && n ≤ 0xFFFD) || 0x10000 ≤ n

/-- The mark that some editors put in front of a text. -/
def isByteOrderMark (c : Char) : Bool := c.toNat == 0xFEFF

end RegistryFleet.Yaml
