/-!
# Text/Blank — which characters are blank, and trimming by them

Annotation values, cron schedules and response bodies are trimmed by the Unicode property
White_Space, which is wider than the four ASCII blanks. Trimming works on the list of characters;
the functions on `String` are its images.
-/

namespace RegistryFleet.Text

/-- **White_Space** — the twenty-five code points of the Unicode property. -/
def isBlank (c : Char) : Bool :=
  let n := c.toNat
  (9 ≤ n && n ≤ 13) || n == 0x20 || n == 0x85 || n == 0xA0 || n == 0x1680
    || (0x2000 ≤ n && n ≤ 0x200A) || n == 0x2028 || n == 0x2029 || n == 0x202F
    || n == 0x205F || n == 0x3000

/-- Drops the longest run of characters with the property from the end. -/
def dropEndWhile (p : Char → Bool) (cs : List Char) : List Char :=
  (cs.reverse.dropWhile p).reverse

/-- Drops blanks from both ends. -/
def trimList (cs : List Char) : List Char :=
  dropEndWhile isBlank (cs.dropWhile isBlank)

/-- The text without blanks at either end. -/
def trim (s : String) : String :=
  String.ofList (trimList s.toList)

/-- Is the text nothing but blanks? -/
def allBlank (s : String) : Bool :=
  s.toList.all isBlank

theorem dropEndWhile_nil (p : Char → Bool) : dropEndWhile p [] = [] := rfl

end RegistryFleet.Text
