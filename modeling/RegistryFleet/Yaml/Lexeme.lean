import RegistryFleet.Text.Digits
import RegistryFleet.Text.Utf8
import RegistryFleet.Yaml.Cursor

/-!
# Yaml/Lexeme — single scalars, names and tags

How each kind of lexeme is read from the place where it begins. A reader yields the text that the
lexeme stands for and the cursor behind it, or nothing where the lexeme is ill formed.
-/

namespace RegistryFleet.Yaml

namespace Lexeme

/-! ## Plain scalars -/

/-- Marks that end a plain scalar inside brackets. -/
def endsFlowWord (c : Char) : Bool := [',', '[', ']', '\x7b', '\x7d'].contains c

/-- Marks that may not follow a colon directly inside brackets. -/
def spoilsColon (c : Char) : Bool := [',', '?', '[', ']', '\x7b', '\x7d'].contains c

/-- The word ahead; a word ends at a blank, at a colon that ends it, and inside brackets at their
marks. -/
def plainWord? (flow : Bool) : List Char → Option (List Char)
  | [] => some []
  | c :: rest =>
    if isBlankOrBreak c then some []
    else if flow && c == ':' && rest.head?.any spoilsColon then none
    else if c == ':' && rest.head?.all isBlankOrBreak then some []
    else if flow && endsFlowWord c then some []
    else (plainWord? flow rest).map (c :: ·)

/-- A scalar without quotes: its text, the cursor behind it, and whether that is on a new line. -/
structure PlainLexeme where
  text : List Char
  next : Cursor
  onNewLine : Bool

/-- Reads word after word, with at most so many steps. -/
def plainWords? (flow : Bool) (indent : Nat) : (steps : Nat) → List Char → Gap → Cursor →
    Option PlainLexeme
  | 0, _, _, _ => none
  | steps + 1, text, gap, c =>
    if c.seesDocumentMarker || c.sees 0 '#' then some ⟨text, c, gap.breaks⟩
    else do
      let word ← plainWord? flow c.rest
      let text := if word.isEmpty then text else text ++ gap.fold ++ word
      let opened := if word.isEmpty then gap else Gap.none
      let c := c.advance word.length
      if c.rest.head?.any fun d => isBlankChar d || isBreak d then
        let (gap, c) ← c.gap (some indent) opened
        if !flow && c.column < indent then some ⟨text, c, gap.breaks⟩
        else plainWords? flow indent steps text gap c
      else some ⟨text, c, opened.breaks⟩

/-- **A plain scalar** in a block of the given indentation. -/
def plain? (flow : Bool) (indent : Nat) (c : Cursor) : Option PlainLexeme :=
  plainWords? flow indent (c.rest.length + 1) [] Gap.none c

/-! ## Quoted scalars -/

/-- What a short escape stands for. -/
def escapeOf? (c : Char) : Option Char :=
  match c with
  | '0' => some '\x00'
  | 'a' => some '\x07'
  | 'b' => some '\x08'
  | 't' => some '\t'
  | '\t' => some '\t'
  | 'n' => some '\n'
  | 'v' => some '\x0b'
  | 'f' => some '\x0c'
  | 'r' => some '\r'
  | 'e' => some '\x1b'
  | ' ' => some ' '
  | '"' => some '"'
  | '\'' => some '\''
  | '/' => some '/'
  | '\\' => some '\\'
  | 'N' => some '\u0085'
  | '_' => some '\u00a0'
  | 'L' => some '\u2028'
  | 'P' => some '\u2029'
  | _ => none

/-- How many digits follow the letter of a code point escape. -/
def codeLength? (c : Char) : Option Nat :=
  match c with
  | 'x' => some 2
  | 'u' => some 4
  | 'U' => some 8
  | _ => none

/-- The character that so many hexadecimal digits write. -/
def codePoint? (digits : List Char) (count : Nat) : Option Char := do
  if digits.length ≠ count then none
  let n ← Text.readNat? 16 digits
  if h : n.isValidChar then some (Char.ofNatAux n h) else none

/-- What a word of a quoted scalar ends with. -/
inductive QuotedEnd
  /-- The closing quote, behind the cursor. -/
  | closed
  /-- A gap. -/
  | gap
  /-- A break that is left out. -/
  | hiddenBreak
  deriving DecidableEq

/-- Reads a word between single quotes, with at most so many steps. -/
def singleWord? : (steps : Nat) → List Char → Cursor → Option (List Char × QuotedEnd × Cursor)
  | 0, _, _ => none
  | steps + 1, text, c =>
    match c.rest with
    | [] => some (text, .gap, c)
    | '\'' :: '\'' :: _ => singleWord? steps (text ++ ['\'']) (c.advance 2)
    | '\'' :: _ => some (text, .closed, c.advance 1)
    | d :: _ =>
      if isBlankOrBreak d then some (text, .gap, c)
      else singleWord? steps (text ++ [d]) (c.advance 1)

/-- Reads a word between double quotes, with at most so many steps. -/
def doubleWord? : (steps : Nat) → List Char → Cursor → Option (List Char × QuotedEnd × Cursor)
  | 0, _, _ => none
  | steps + 1, text, c =>
    match c.rest with
    | [] => some (text, .gap, c)
    | '"' :: _ => some (text, .closed, c.advance 1)
    | '\\' :: e :: rest =>
      if isBreak e then some (text, .hiddenBreak, (c.advance 1).skipBreak)
      else
        match escapeOf? e with
        | some d => doubleWord? steps (text ++ [d]) (c.advance 2)
        | none => do
          let count ← codeLength? e
          let d ← codePoint? (rest.take count) count
          doubleWord? steps (text ++ [d]) (c.advance (2 + count))
    | d :: _ =>
      if isBlankOrBreak d then some (text, .gap, c)
      else doubleWord? steps (text ++ [d]) (c.advance 1)

/-- Reads words and gaps up to the closing quote, with at most so many steps. -/
def quotedWords? (single : Bool) : (steps : Nat) → List Char → Cursor → Option (List Char × Cursor)
  | 0, _, _ => none
  | steps + 1, text, c =>
    if c.seesDocumentMarker || c.atEnd then none
    else do
      let (text, ending, c) ←
        if single then singleWord? (c.rest.length + 1) text c
        else doubleWord? (c.rest.length + 1) text c
      match ending with
      | .closed => some (text, c)
      | .gap =>
        let (gap, c) ← c.gap none Gap.none
        quotedWords? single steps (text ++ gap.fold) c
      | .hiddenBreak =>
        if c.sees 0 '"' then some (text, c.advance 1)
        else
          let (gap, c) ← c.gap none Gap.afterHiddenBreak
          quotedWords? single steps (text ++ gap.fold) c

/-- **A quoted scalar**, from its opening quote on. -/
def quoted? (single : Bool) (c : Cursor) : Option (List Char × Cursor) :=
  quotedWords? single (c.rest.length + 1) [] (c.advance 1)

/-! ## Block scalars -/

/-- What becomes of the breaks at the end of a block scalar. -/
inductive Chomping
  | strip
  | clip
  | keep
  deriving DecidableEq

/-- The chomping that a mark stands for. -/
def chomping? (c : Char) : Option Chomping :=
  if c = '+' then some .keep else if c = '-' then some .strip else none

/-- The indentation that a digit stands for. -/
def indentation? (c : Char) : Option Nat :=
  if c.isDigit then some (c.toNat - '0'.toNat) else none

/-- The hints behind the mark of a block scalar. -/
def blockHints? (c : Cursor) : Option (Chomping × Option Nat × Cursor) :=
  let valid (n : Nat) (r : Chomping × Option Nat × Cursor) := if n = 0 then none else some r
  match c.rest with
  | a :: b :: _ =>
    match chomping? a, indentation? a with
    | some k, _ =>
      match indentation? b with
      | some n => valid n (k, some n, c.advance 2)
      | none => some (k, none, c.advance 1)
    | none, some n =>
      match chomping? b with
      | some k => valid n (k, some n, c.advance 2)
      | none => valid n (.clip, some n, c.advance 1)
    | none, none => some (.clip, none, c)
  | [a] =>
    match chomping? a, indentation? a with
    | some k, _ => some (k, none, c.advance 1)
    | none, some n => valid n (.clip, some n, c.advance 1)
    | none, none => some (.clip, none, c)
  | [] => some (.clip, none, c)

/-- Skips indentation and empty lines, with at most so many steps: the breaks skipped, the widest
column seen, and the cursor. A tab may not stand for indentation. -/
def blockBreaks? (indent : Option Nat) : (steps : Nat) → List Char → (widest : Nat) → Cursor →
    Option (List Char × Nat × Cursor)
  | 0, _, _, _ => none
  | steps + 1, breaks, widest, c =>
    let room (c : Cursor) : Bool := indent.all fun n => c.column < n
    let spaces := (c.rest.takeWhile (· == ' ')).length
    let taken := match indent with
      | some n => min spaces (n - c.column)
      | none => spaces
    let c := c.advance taken
    let widest := max widest c.column
    if room c && c.sees 0 '\t' then none
    else
      match c.break? with
      | some (kept, next) => blockBreaks? indent steps (breaks ++ kept) widest next
      | none => some (breaks, widest, c)

/-- The state of a block scalar between two lines. -/
structure BlockText where
  text : List Char
  /-- The break behind the last line. -/
  leading : List Char
  /-- The empty lines after it. -/
  trailing : List Char
  /-- Did the last line begin with a blank? -/
  blankBefore : Bool

/-- The text with the breaks in front of the next line. -/
def BlockText.join (literal : Bool) (b : BlockText) (blankAhead : Bool) : List Char :=
  if !literal && b.leading.head? == some '\n' && !b.blankBefore && !blankAhead then
    b.text ++ (if b.trailing.isEmpty then [' '] else []) ++ b.trailing
  else b.text ++ b.leading ++ b.trailing

/-- Reads line after line, with at most so many steps. -/
def blockLines? (literal : Bool) (indent : Nat) : (steps : Nat) → BlockText → Cursor →
    Option (BlockText × Cursor)
  | 0, _, _ => none
  | steps + 1, b, c =>
    if c.column == indent && !c.atEnd then do
      let blankAhead := c.rest.head?.any isBlankChar
      let (line, c) := c.span fun d => !isBreak d
      let text := b.join literal blankAhead ++ line
      let (leading, c) := (c.break?).getD ([], c)
      let (trailing, _, c) ← blockBreaks? (some indent) (c.rest.length + 1) [] 0 c
      blockLines? literal indent steps ⟨text, leading, trailing, blankAhead⟩ c
    else some (b, c)

/-- **A block scalar**, from its mark on, in a block of the given indentation. -/
def block? (literal : Bool) (outer : Int) (c : Cursor) : Option (List Char × Cursor) := do
  let (chomping, given, c) ← blockHints? (c.advance 1)
  let (_, c) := c.span isBlankChar
  let c := if c.sees 0 '#' then c.skipLine else c
  if !c.atEnd && (c.break?).isNone then none
  let c := c.skipBreak
  let wanted := given.map fun n => if 0 ≤ outer then outer.toNat + n else n
  let (breaks, widest, c) ← blockBreaks? wanted (c.rest.length + 1) [] 0 c
  let indent := wanted.getD (max (max widest (outer + 1).toNat) 1)
  let (b, c) ← blockLines? literal indent (c.rest.length + 1) ⟨[], [], breaks, false⟩ c
  let text := match chomping with
    | .strip => b.text
    | .clip => b.text ++ b.leading
    | .keep => b.text ++ b.leading ++ b.trailing
  return (text, c)

/-! ## Names, tags and directives -/

/-- Marks that may follow the name of an anchor. -/
def endsAnchor (c : Char) : Bool :=
  isBlankOrBreak c || ['?', ':', ',', ']', '\x7d', '%', '@', '`'].contains c

/-- **The name of an anchor or alias**, from its mark on. -/
def anchor? (c : Cursor) : Option (String × Cursor) :=
  let (name, next) := (c.advance 1).span isNameChar
  if name.isEmpty || !next.rest.head?.all endsAnchor then none
  else some (String.ofList name, next)

/-- Characters of tags; some marks count only between angle brackets. -/
def isTagChar (verbatim : Bool) (c : Char) : Bool :=
  isNameChar c || ";/?:@&=+$.%!~*'()".toList.contains c
    || (verbatim && [',', '[', ']'].contains c)

/-- The octets that the escapes at the front of a text write, and how many characters they take. -/
def escapedOctets : List Char → List UInt8
  | '%' :: a :: b :: rest =>
    match Text.readNat? 16 [a, b] with
    | some n => UInt8.ofNat n :: escapedOctets rest
    | none => []
  | _ => []

/-- How many octets the character has that begins with this one. -/
def sequenceLength (octet : UInt8) : Nat :=
  if octet.toNat < 0x80 then 1
  else match Text.Utf8.lead? octet.toNat with
    | some (_, _, missing, _) => missing + 1
    | none => 0

/-- The text of a tag, its escapes decoded, with at most so many steps. -/
def tagText? (verbatim : Bool) : (steps : Nat) → List Char → Cursor → Option (List Char × Cursor)
  | 0, _, _ => none
  | steps + 1, text, c =>
    match c.rest with
    | '%' :: _ => do
      let octets := escapedOctets c.rest
      let first ← octets.head?
      let width := sequenceLength first
      let s ← if width = 0 then none else Text.Utf8.decode? (octets.take width)
      tagText? verbatim steps (text ++ s.toList) (c.advance (3 * width))
    | d :: _ =>
      if isTagChar verbatim d then tagText? verbatim steps (text ++ [d]) (c.advance 1)
      else some (text, c)
    | [] => some (text, c)

/-- The handle of a tag, from its first mark on: the mark, a name, and the second mark if there is
one. -/
def handle (c : Cursor) : List Char × Cursor :=
  let (name, next) := (c.advance 1).span isNameChar
  if next.sees 0 '!' then ('!' :: name ++ ['!'], next.advance 1) else ('!' :: name, next)

/-- Does the text have two marks, at its ends? -/
def isFullHandle (cs : List Char) : Bool := 2 ≤ cs.length && cs.getLast? == some '!'

/-- **A tag** as its handle and suffix, from its mark on. -/
def tag? (flow : Bool) (c : Cursor) : Option (String × String × Cursor) := do
  let (front, suffix, next) ←
    if c.sees 1 '<' then do
      let (suffix, next) ← tagText? true (c.rest.length + 1) [] (c.advance 2)
      if suffix.isEmpty || !next.sees 0 '>' then none
      else some ([], suffix, next.advance 1)
    else
      let (front, next) := handle c
      if isFullHandle front then do
        let (suffix, next) ← tagText? false (next.rest.length + 1) [] next
        if suffix.isEmpty then none else some (front, suffix, next)
      else do
        let (suffix, next) ← tagText? false (next.rest.length + 1) (front.drop 1) next
        if suffix.isEmpty then some ([], ['!'], next) else some (['!'], suffix, next)
  if next.endsWordAt 0 || (flow && next.sees 0 ',') then
    some (String.ofList front, String.ofList suffix, next)
  else none

/-- A directive. -/
inductive Directive
  | version (major minor : Nat)
  | tag (front replacement : String)
  deriving DecidableEq, Repr

/-- A number of a version. -/
def versionNumber? (c : Cursor) : Option (Nat × Cursor) :=
  let (digits, next) := c.span Char.isDigit
  if digits.length > 9 then none else (Text.readNat? 10 digits).map fun n => (n, next)

/-- The values of a directive of the given name. -/
def directiveValue? (name : List Char) (c : Cursor) : Option (Directive × Cursor) :=
  let (_, c) := c.span isBlankChar
  if name = "YAML".toList then do
    let (major, c) ← versionNumber? c
    if !c.sees 0 '.' then none
    let (minor, c) ← versionNumber? (c.advance 1)
    return (.version major minor, c)
  else if name = "TAG".toList then do
    if !c.sees 0 '!' then none
    let (front, c) := handle c
    if !isFullHandle front && front ≠ ['!'] then none
    if !c.rest.head?.any isBlankChar then none
    let (_, c) := c.span isBlankChar
    let (replacement, c) ← tagText? true (c.rest.length + 1) [] c
    if replacement.isEmpty || !c.endsWordAt 0 then none
    return (.tag (String.ofList front) (String.ofList replacement), c)
  else none

/-- **A directive**, from its mark to the next line. -/
def directive? (c : Cursor) : Option (Directive × Cursor) := do
  let (name, c) := (c.advance 1).span isNameChar
  if name.isEmpty || !c.endsWordAt 0 then none
  let (d, c) ← directiveValue? name c
  let (_, c) := c.span isBlankChar
  let c := if c.sees 0 '#' then c.skipLine else c
  if !c.atEnd && (c.break?).isNone then none
  return (d, c.skipBreak)

end Lexeme

end RegistryFleet.Yaml
