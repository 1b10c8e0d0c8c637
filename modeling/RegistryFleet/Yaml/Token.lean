import RegistryFleet.Yaml.Lexeme

/-!
# Yaml/Token — a document as marks and scalars

The indentation of blocks becomes marks of its own. A scalar that turns out to be a key is known as
one only at its colon, so the place of each **possible key** is kept, and the mark of the key is put
in front of it afterwards. A token is **delivered** once no possible key waits at it; where the text
is ill formed, what was delivered before still counts.
-/

namespace RegistryFleet.Yaml

/-- **Marks and scalars.** -/
inductive Token
  | streamEnd
  | directive (d : Lexeme.Directive)
  | documentStart
  | documentEnd
  | blockSequenceStart
  | blockMappingStart
  | blockEnd
  | flowSequenceStart
  | flowSequenceEnd
  | flowMappingStart
  | flowMappingEnd
  | blockEntry
  | flowEntry
  | key
  | value
  | alias (name : String)
  | anchor (name : String)
  | tag (front suffix : String)
  | scalar (text : String) (plain : Bool)
  deriving DecidableEq, Repr

/-- **A place where a key may have begun.** -/
structure PossibleKey where
  /-- Must a colon follow, as nothing else can stand in this column? -/
  required : Bool
  /-- The number of the token that begins there. -/
  number : Nat
  line : Nat
  index : Nat
  column : Nat
  deriving Repr

/-- A key ends on its line, within this many characters. -/
def PossibleKey.reach : Nat := 1024

/-- Is it too late for a colon? -/
def PossibleKey.isStale (k : PossibleKey) (c : Cursor) : Bool :=
  k.line < c.line || k.index + reach < c.index

/-- **A text read in part.** -/
structure Lexer where
  cursor : Cursor
  /-- All tokens so far. -/
  tokens : List Token
  /-- The column of the block, −1 outside all blocks. -/
  indent : Int
  /-- The columns of the blocks around it. -/
  outerIndents : List Int
  /-- The possible key of the innermost brackets, or of the block. -/
  possible : Option PossibleKey
  /-- The possible keys around them, one for every open bracket. -/
  outerPossible : List (Option PossibleKey)
  /-- May a key begin here? -/
  keyAllowed : Bool
  /-- Has the end been reached? -/
  ended : Bool

namespace Lexer

/-- The beginning of a text. -/
def start (text : List Char) : Lexer := ⟨Cursor.start text, [], -1, [], none, [], true, false⟩

/-- Is a bracket open? -/
def inFlow (s : Lexer) : Bool := !s.outerPossible.isEmpty

/-- Adds a token. -/
def emit (s : Lexer) (t : Token) : Lexer := { s with tokens := s.tokens ++ [t] }

/-- Adds tokens in front of the `n`-th. -/
def emitAt (s : Lexer) (n : Nat) (ts : List Token) : Lexer :=
  { s with tokens := s.tokens.take n ++ ts ++ s.tokens.drop n }

/-- Adds a mark of the given width. -/
def mark (s : Lexer) (t : Token) (width : Nat) : Lexer :=
  { s.emit t with cursor := s.cursor.advance width }

/-! ## Possible keys -/

/-- Gives up the possible key, unless it is required. -/
def giveUp? (s : Lexer) : Option Lexer :=
  if s.possible.any (·.required) then none else some { s with possible := none }

/-- Notes that a key may begin here. -/
def noteKey? (s : Lexer) : Option Lexer :=
  if s.keyAllowed then do
    let s ← s.giveUp?
    let c := s.cursor
    let required := !s.inFlow && s.indent == (c.column : Int)
    return { s with possible := some ⟨required, s.tokens.length, c.line, c.index, c.column⟩ }
  else some s

/-- Drops the keys for which it is too late, unless one of them is required. -/
def dropStale? (s : Lexer) : Option Lexer :=
  let stale (k : PossibleKey) : Bool := k.isStale s.cursor
  if (s.possible :: s.outerPossible).any fun o => o.any fun k => stale k && k.required then none
  else
    some { s with
      possible := s.possible.filter fun k => !stale k
      outerPossible := s.outerPossible.map fun o => o.filter fun k => !stale k }

/-- Does a possible key wait at the `n`-th token? -/
def waitsAt (s : Lexer) (n : Nat) : Bool :=
  (s.possible :: s.outerPossible).any fun o => o.any fun k => k.number == n

/-! ## Indentation -/

/-- Opens a block at a column further right, with its mark in front of the `n`-th token. -/
def openBlock (s : Lexer) (column : Nat) (n : Nat) (t : Token) : Lexer :=
  if !s.inFlow && s.indent < (column : Int) then
    { s.emitAt n [t] with indent := column, outerIndents := s.indent :: s.outerIndents }
  else s

/-- The blocks that end at a column: what is left of the columns, and how many ended. -/
def closeTo (column : Int) : (indent : Int) → List Int → Int × List Int × Nat
  | indent, [] => (indent, [], 0)
  | indent, outer :: rest =>
    if indent > column then
      let (i, is, n) := closeTo column outer rest
      (i, is, n + 1)
    else (indent, outer :: rest, 0)

/-- Ends the blocks that reach further right than the column. -/
def close (s : Lexer) (column : Int) : Lexer :=
  if s.inFlow then s
  else
    let (indent, outer, ended) := closeTo column s.indent s.outerIndents
    { s with indent := indent, outerIndents := outer,
             tokens := s.tokens ++ List.replicate ended .blockEnd }

/-! ## Between tokens -/

/-- Skips blanks, comments and breaks, with at most so many steps. A tab may stand where no key
can begin. -/
def skipWithin : (steps : Nat) → Lexer → Lexer
  | 0, s => s
  | steps + 1, s =>
    let blank (d : Char) : Bool := d == ' ' || (d == '\t' && (s.inFlow || !s.keyAllowed))
    let c := if s.cursor.column == 0 && s.cursor.rest.head?.any isByteOrderMark
      then { s.cursor with rest := s.cursor.rest.drop 1, index := s.cursor.index + 1 }
      else s.cursor
    let c := (c.span blank).2
    let c := if c.sees 0 '#' then c.skipLine else c
    match c.break? with
    | some (_, next) =>
      skipWithin steps { s with cursor := next, keyAllowed := s.keyAllowed || !s.inFlow }
    | none => { s with cursor := c }

/-- Skips what stands in front of the next token. -/
def skip (s : Lexer) : Lexer := skipWithin (s.cursor.rest.length + 1) s

/-! ## One token -/

/-- The end of the text, which ends its line. -/
def readEnd? (s : Lexer) : Option Lexer := do
  let s := s.close (-1)
  let s ← s.giveUp?
  let c := s.cursor
  let c := if c.column = 0 then c else ⟨c.rest, c.index, c.line + 1, 0⟩
  return { s.emit .streamEnd with keyAllowed := false, ended := true, cursor := c }

/-- A directive. -/
def readDirective? (s : Lexer) : Option Lexer := do
  let s := s.close (-1)
  let s ← s.giveUp?
  let (d, next) ← Lexeme.directive? s.cursor
  return { s.emit (.directive d) with keyAllowed := false, cursor := next }

/-- The mark of a document's start or end. -/
def readMarker? (s : Lexer) (t : Token) : Option Lexer := do
  let s := s.close (-1)
  let s ← s.giveUp?
  return { s.mark t 3 with keyAllowed := false }

/-- An opening bracket. -/
def readOpening? (s : Lexer) (t : Token) : Option Lexer := do
  let s ← s.noteKey?
  return { s.mark t 1 with
    possible := none, outerPossible := s.possible :: s.outerPossible, keyAllowed := true }

/-- A closing bracket. -/
def readClosing? (s : Lexer) (t : Token) : Option Lexer := do
  let s ← s.giveUp?
  let s := match s.outerPossible with
    | k :: rest => { s with possible := k, outerPossible := rest }
    | [] => s
  return { s.mark t 1 with keyAllowed := false }

/-- A comma between brackets. -/
def readComma? (s : Lexer) : Option Lexer := do
  let s ← s.giveUp?
  return { s.mark .flowEntry 1 with keyAllowed := true }

/-- The dash of a list's item. -/
def readDash? (s : Lexer) : Option Lexer := do
  if !s.inFlow && !s.keyAllowed then none
  let s := s.openBlock s.cursor.column s.tokens.length .blockSequenceStart
  let s ← s.giveUp?
  return { s.mark .blockEntry 1 with keyAllowed := true }

/-- The question mark of a key. -/
def readQuestion? (s : Lexer) : Option Lexer := do
  if !s.inFlow && !s.keyAllowed then none
  let s := s.openBlock s.cursor.column s.tokens.length .blockMappingStart
  let s ← s.giveUp?
  return { s.mark .key 1 with keyAllowed := !s.inFlow }

/-- The colon in front of a value: what may have been a key is one. -/
def readColon? (s : Lexer) : Option Lexer :=
  match s.possible with
  | some k =>
    let s := (s.emitAt k.number [.key]).openBlock k.column k.number .blockMappingStart
    some { s.mark .value 1 with possible := none, keyAllowed := false }
  | none => do
    if !s.inFlow && !s.keyAllowed then none
    let s := s.openBlock s.cursor.column s.tokens.length .blockMappingStart
    return { s.mark .value 1 with keyAllowed := !s.inFlow }

/-- A token that may begin a key, read from the cursor on. -/
def readLexeme? (s : Lexer) (read : Cursor → Option (Token × Cursor)) : Option Lexer := do
  let s ← s.noteKey?
  let (t, next) ← read s.cursor
  return { s.emit t with keyAllowed := false, cursor := next }

/-- A block scalar. -/
def readBlock? (s : Lexer) (literal : Bool) : Option Lexer := do
  let s ← s.giveUp?
  let (text, next) ← Lexeme.block? literal s.indent s.cursor
  return { s.emit (.scalar (String.ofList text) false) with keyAllowed := true, cursor := next }

/-- A scalar without quotes. -/
def readPlain? (s : Lexer) : Option Lexer := do
  let s ← s.noteKey?
  let p ← Lexeme.plain? s.inFlow (s.indent + 1).toNat s.cursor
  return { s.emit (.scalar (String.ofList p.text) true) with
    keyAllowed := p.onNewLine, cursor := p.next }

/-- The characters with which no plain scalar begins, whatever follows them. -/
def isIndicator (c : Char) : Bool :=
  [',', '[', ']', '\x7b', '\x7d', '#', '&', '*', '!', '|', '>', '\'', '"', '%', '@', '`'].contains c

/-- May a plain scalar begin here? -/
def beginsPlain (s : Lexer) (d : Char) : Bool :=
  let wordAhead := !s.cursor.endsWordAt 1
  if isBlankOrBreak d || isIndicator d then false
  else if d == '-' then wordAhead
  else if d == '?' || d == ':' then !s.inFlow && wordAhead
  else true

/-- The token that begins with the given character. -/
def readAt? (s : Lexer) (d : Char) : Option Lexer :=
  let c := s.cursor
  let alone : Bool := s.inFlow || c.endsWordAt 1
  if c.column == 0 && d == '%' then s.readDirective?
  else if c.seesMarker '-' then s.readMarker? .documentStart
  else if c.seesMarker '.' then s.readMarker? .documentEnd
  else if d == '[' then s.readOpening? .flowSequenceStart
  else if d == '\x7b' then s.readOpening? .flowMappingStart
  else if d == ']' then s.readClosing? .flowSequenceEnd
  else if d == '\x7d' then s.readClosing? .flowMappingEnd
  else if d == ',' then s.readComma?
  else if d == '-' && c.endsWordAt 1 then s.readDash?
  else if d == '?' && alone then s.readQuestion?
  else if d == ':' && alone then s.readColon?
  else if d == '*' then s.readLexeme? fun c => (Lexeme.anchor? c).map fun (n, k) => (.alias n, k)
  else if d == '&' then s.readLexeme? fun c => (Lexeme.anchor? c).map fun (n, k) => (.anchor n, k)
  else if d == '!' then
    s.readLexeme? fun c => (Lexeme.tag? s.inFlow c).map fun (f, x, k) => (.tag f x, k)
  else if d == '|' && !s.inFlow then s.readBlock? true
  else if d == '>' && !s.inFlow then s.readBlock? false
  else if d == '\'' || d == '"' then
    s.readLexeme? fun c => (Lexeme.quoted? (d == '\'') c).map fun (t, k) =>
      (.scalar (String.ofList t) false, k)
  else if s.beginsPlain d then s.readPlain?
  else none

/-- **One more token**, and the marks that come with it. -/
def read? (s : Lexer) : Option Lexer := do
  let s ← s.skip.dropStale?
  let s := s.close s.cursor.column
  match s.cursor.rest with
  | [] => s.readEnd?
  | d :: _ => s.readAt? d

/-- The tokens that are delivered, with at most so many steps, of which so many were before. -/
def deliver : (steps : Nat) → (delivered : Nat) → Lexer → List Token
  | 0, delivered, s => s.tokens.take delivered
  | steps + 1, delivered, s =>
    if s.tokens.length ≤ delivered then
      if s.ended then s.tokens
      else
        match s.read? with
        | some next => deliver steps delivered next
        | none => s.tokens.take delivered
    else
      match s.dropStale? with
      | none => s.tokens.take delivered
      | some s =>
        if s.waitsAt delivered then
          match s.read? with
          | some next => deliver steps delivered next
          | none => s.tokens.take delivered
        else deliver steps (delivered + 1) s

end Lexer

/-- **The tokens of a text**, up to the place where it is ill formed. Every step reads a character
or delivers a token, and a character yields at most five. -/
def Token.ofText (text : List Char) : List Token :=
  let text := match text with
    | c :: rest => if isByteOrderMark c then rest else text
    | [] => []
  if text.all isAllowed then Lexer.deliver (8 * text.length + 16) 0 (Lexer.start text) else []

end RegistryFleet.Yaml
