import RegistryFleet.Yaml.Character

/-!
# Yaml/Cursor — a place in a text, and what divides the words of a scalar

A cursor holds the text that is left with the line and the column reached. Between two words of a
scalar stands a gap of blanks and breaks; folding turns it into the text that the scalar gets.
-/

namespace RegistryFleet.Yaml

/-- **A place in a text.** -/
structure Cursor where
  /-- The text that is left. -/
  rest : List Char
  /-- How many characters come before. -/
  index : Nat
  line : Nat
  column : Nat
  deriving Repr

namespace Cursor

/-- The beginning of a text. -/
def start (text : List Char) : Cursor := ⟨text, 0, 0, 0⟩

/-- The cursor behind `n` characters of the line. -/
def advance (c : Cursor) (n : Nat) : Cursor :=
  ⟨c.rest.drop n, c.index + n, c.line, c.column + n⟩

/-- Is the `n`-th character ahead the given one? -/
def sees (c : Cursor) (n : Nat) (d : Char) : Bool := c.rest[n]? == some d

/-- Does the `n`-th place ahead end a word: a blank, a break or the end of the text? -/
def endsWordAt (c : Cursor) (n : Nat) : Bool := c.rest[n]?.all isBlankOrBreak

/-- Is the text at its end? -/
def atEnd (c : Cursor) : Bool := c.rest.isEmpty

/-- The characters up to the first without the property, and the cursor behind them. The property
must not hold of breaks. -/
def span (p : Char → Bool) (c : Cursor) : List Char × Cursor :=
  let taken := c.rest.takeWhile p
  (taken, c.advance taken.length)

/-- The break ahead as it counts in a scalar, and the cursor on the next line. -/
def break? (c : Cursor) : Option (List Char × Cursor) :=
  match c.rest with
  | '\r' :: '\n' :: rest => some (['\n'], ⟨rest, c.index + 2, c.line + 1, 0⟩)
  | d :: rest =>
    if isBreak d then
      let kept := if d.toNat == 0x2028 || d.toNat == 0x2029 then d else '\n'
      some ([kept], ⟨rest, c.index + 1, c.line + 1, 0⟩)
    else none
  | [] => none

/-- The cursor behind the break ahead, if there is one. -/
def skipBreak (c : Cursor) : Cursor :=
  match c.break? with
  | some (_, next) => next
  | none => c

/-- Skips the rest of the line, up to its break. -/
def skipLine (c : Cursor) : Cursor := (c.span fun d => !isBreak d).2

/-- Does the line begin with three of the character, as the marks of documents do? -/
def seesMarker (c : Cursor) (d : Char) : Bool :=
  c.column == 0 && c.sees 0 d && c.sees 1 d && c.sees 2 d && c.endsWordAt 3

/-- Does the line begin with the mark of a document's start or end? -/
def seesDocumentMarker (c : Cursor) : Bool := c.seesMarker '-' || c.seesMarker '.'

end Cursor

/-- **What divides two words** of a scalar. -/
structure Gap where
  /-- The blanks, where no break follows. -/
  blanks : List Char
  /-- The first break. -/
  first : Option (List Char)
  /-- The breaks after it. -/
  others : List Char
  deriving Repr

namespace Gap

/-- No gap at all. -/
def none : Gap := ⟨[], .none, []⟩

/-- The gap behind a break that is itself left out of the scalar. -/
def afterHiddenBreak : Gap := ⟨[], some [], []⟩

/-- Is there a break? -/
def breaks (g : Gap) : Bool := g.first.isSome

/-- The gap with one more break. -/
def addBreak (g : Gap) (kept : List Char) : Gap :=
  match g.first with
  | .none => ⟨[], some kept, []⟩
  | some _ => { g with others := g.others ++ kept }

/-- The gap with one more blank, which counts only in front of breaks. -/
def addBlank (g : Gap) (d : Char) : Gap :=
  if g.breaks then g else { g with blanks := g.blanks ++ [d] }

/-- **Folding** — a single break becomes a space, more of them lose the first. -/
def fold (g : Gap) : List Char :=
  match g.first with
  | .none => g.blanks
  | some ['\n'] => if g.others.isEmpty then [' '] else g.others
  | some kept => kept ++ g.others

end Gap

/-- Reads a gap, with at most so many steps. Where `indent` is given, a tab in front of that column
on a further line spoils the scalar. -/
def Cursor.gapWithin (indent : Option Nat) : (steps : Nat) → Gap → Cursor → Option (Gap × Cursor)
  | 0, g, c => some (g, c)
  | steps + 1, g, c =>
    match c.rest with
    | [] => some (g, c)
    | d :: _ =>
      if isBlankChar d then
        if g.breaks && d == '\t' && indent.any fun n => c.column < n then none
        else Cursor.gapWithin indent steps (g.addBlank d) (c.advance 1)
      else
        match c.break? with
        | some (kept, next) => Cursor.gapWithin indent steps (g.addBreak kept) next
        | none => some (g, c)

/-- Reads a gap. -/
def Cursor.gap (c : Cursor) (indent : Option Nat) (g : Gap) : Option (Gap × Cursor) :=
  Cursor.gapWithin indent c.rest.length g c

end RegistryFleet.Yaml
