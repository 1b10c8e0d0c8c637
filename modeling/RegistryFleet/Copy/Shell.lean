/-!
# Copy/Shell — words that a shell reads literally

A word is cut into chunks, and each chunk is written in a style that holds all its characters:
bare, between single quotes or between double quotes. A chunk is as long as some one style allows.
A caret at the start of a chunk is only safe between single quotes.
-/

namespace RegistryFleet.Shell

/-- A way to write a chunk. -/
inductive Style
  | bare
  | single
  | double
  deriving DecidableEq, Repr

/-- Can the style hold the character? -/
def Style.holds : Style → Char → Bool
  | bare, c => c.isAlphanum || "+-./:@]_".toList.contains c
  | single, c => !(['\'', '^', '\\'].contains c)
  | double, c => !(['`', '$', '!', '^'].contains c)

/-- The styles that remain possible, the preferred ones first. -/
abbrev Styles : Type := List Style

/-- All styles in order of preference. -/
def Style.all : Styles := [.bare, .single, .double]

/-- The styles that can hold a chunk that starts with the character. -/
def opening (c : Char) : Styles :=
  if c = '^' then [.single] else Style.all.filter fun s => s.holds c

/-- How a character is written between double quotes. -/
def escaped (c : Char) : List Char :=
  if c = '"' ∨ c = '\\' then ['\\', c] else [c]

/-- A chunk written in a style. -/
def Style.write : Style → List Char → List Char
  | bare, cs => cs
  | single, cs => '\'' :: cs ++ ['\'']
  | double, cs => '"' :: cs.flatMap escaped ++ ['"']

/-- A chunk in the preferred one of the styles that remain. -/
def close (styles : Styles) (chunk : List Char) : List Char :=
  (styles.headD .double).write chunk

/-- Writes characters behind a chunk that is still open. -/
def continueWord (styles : Styles) (chunk : List Char) : List Char → List Char
  | [] => close styles chunk
  | c :: cs =>
    match styles.filter fun s => s.holds c with
    | [] => close styles chunk ++ continueWord (opening c) [c] cs
    | remaining => continueWord remaining (chunk ++ [c]) cs

/-- The word for a list of characters. -/
def wordOf : List Char → List Char
  | [] => ['\'', '\'']
  | c :: cs => continueWord (opening c) [c] cs

/-- **The word that a shell reads as the text**; there is none for a text with a NUL. -/
def word? (s : String) : Option String :=
  if s.toList.contains '\x00' then none else some (String.ofList (wordOf s.toList))

end RegistryFleet.Shell
