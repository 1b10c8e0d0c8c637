import RegistryFleet.Decimal.Binary64
import RegistryFleet.Text.Digits

/-!
# Json/Node — JSON text as a tree

The tree of a text has a hole where the text breaks off, so that what stands in front of it can
still be refused for what it is.
-/

namespace RegistryFleet.Json

/-- **A text's tree.** -/
inductive Node
  | null
  | bool (value : Bool)
  | int (value : Int)
  | float (value : Decimal.Numeral)
  | text (value : String)
  | list (items : List Node)
  /-- Well formed, but without a value: a number too great, or a text with half a character. -/
  | unreadable
  /-- Fields as they stand; where the text breaks off in front of a value, that is the hole, and
  where it does so in front of a key, `brokenOff` says so. -/
  | record (fields : List (String × Node)) (brokenOff : Bool)
  /-- Well formed, but a key has half a character: the fields in front of it. Who passes the value
  over passes over the key as well. -/
  | unnamed (fields : List (String × Node))
  /-- The text breaks off here. -/
  | hole
  deriving Repr

/-- What is left of a text behind something, if it was well formed. -/
abbrev Rest := Option (List Char)

/-! ## Leaves -/

/-- Blanks between tokens. -/
def isSpace (c : Char) : Bool := c == ' ' || c == '\n' || c == '\t' || c == '\r'

/-- The text behind the blanks. -/
def skipSpace (cs : List Char) : List Char := cs.dropWhile isSpace

/-- A character that is escaped by a letter. -/
def unescape? (c : Char) : Option Char :=
  match c with
  | '"' => some '"'
  | '\\' => some '\\'
  | '/' => some '/'
  | 'b' => some '\x08'
  | 'f' => some '\x0c'
  | 'n' => some '\n'
  | 'r' => some '\r'
  | 't' => some '\t'
  | _ => none

/-- A unit of sixteen bits, written with four digits. -/
def unit? (a b c d : Char) : Option Nat := Text.readNat? 16 [a, b, c, d]

/-- The character of a unit; one beyond sixteen bits takes two. -/
def character? (unit : Nat) : Option Char :=
  if h : unit.isValidChar then some (Char.ofNatAux unit h) else none

/-- The numbers of the characters up to the closing quote, and the text behind it. An escaped
character may be given in two halves. -/
def codes? : List Char → Option (List Nat × List Char)
  | [] => none
  | '"' :: rest => some ([], rest)
  | '\\' :: 'u' :: a :: b :: c :: d :: rest => do
    let code ← unit? a b c d
    let (codes, rest) ← codes? rest
    return (code :: codes, rest)
  | '\\' :: c :: rest => do
    let ch ← unescape? c
    let (codes, rest) ← codes? rest
    return (ch.toNat :: codes, rest)
  | c :: rest =>
    if c == '\\' || c.toNat < 32 then none
    else do
      let (codes, rest) ← codes? rest
      return (c.toNat :: codes, rest)

/-- Is the number the first half of a character? -/
def isHigh (code : Nat) : Bool := 0xD800 ≤ code && code < 0xDC00

/-- Is the number the second half of a character? -/
def isLow (code : Nat) : Bool := 0xDC00 ≤ code && code < 0xE000

/-- **The characters of numbers**, halves put together; a half alone is no character. -/
def characters? : List Nat → Option (List Char)
  | [] => some []
  | high :: low :: rest =>
    if isHigh high && isLow low then do
      let c ← character? (0x10000 + (high - 0xD800) * 0x400 + (low - 0xDC00))
      return c :: (← characters? rest)
    else do return (← character? high) :: (← characters? (low :: rest))
  | [code] => do return [← character? code]

/-- The characters up to the closing quote, if they are all whole, and the text behind it. -/
def string? (cs : List Char) : Option (Option (List Char) × List Char) :=
  (codes? cs).map fun (codes, rest) => (characters? codes, rest)

/-- The digits of a whole part: a zero stands alone. -/
def wholePart? (cs : List Char) : Option (List Char × List Char) :=
  match cs with
  | '0' :: rest => if rest.head?.any Char.isDigit then none else some (['0'], rest)
  | _ =>
    let digits := cs.takeWhile Char.isDigit
    if digits.isEmpty then none else some (digits, cs.dropWhile Char.isDigit)

/-- The digits behind the point, if there is one. -/
def fraction? : List Char → Option (List Char × List Char)
  | '.' :: rest =>
    let digits := rest.takeWhile Char.isDigit
    if digits.isEmpty then none else some (digits, rest.dropWhile Char.isDigit)
  | cs => some ([], cs)

/-- The exponent, if there is one. -/
def exponent? (cs : List Char) : Option (Option Int × List Char) :=
  let digits (negative : Bool) (cs : List Char) : Option (Option Int × List Char) := do
    let n ← Text.readNat? 10 (cs.takeWhile Char.isDigit)
    return (some (if negative then -(n : Int) else n), cs.dropWhile Char.isDigit)
  match cs with
  | e :: '-' :: rest => if e == 'e' || e == 'E' then digits true rest else some (none, cs)
  | e :: '+' :: rest => if e == 'e' || e == 'E' then digits false rest else some (none, cs)
  | e :: rest => if e == 'e' || e == 'E' then digits false rest else some (none, cs)
  | [] => some (none, [])

/-- A number: a whole number of 64 bits, else a double, which must be finite. -/
def number? (cs : List Char) : Option (Node × List Char) := do
  let (negative, cs) := match cs with
    | '-' :: rest => (true, rest)
    | _ => (false, cs)
  let (whole, cs) ← wholePart? cs
  let (behind, cs) ← fraction? cs
  let (exponent, cs) ← exponent? cs
  let n ← Text.readNat? 10 (whole ++ behind)
  let value : Int := if negative then -(n : Int) else n
  if behind.isEmpty && exponent.isNone && -(Nat.pow 2 63 : Int) ≤ value && value < (Nat.pow 2 64 : Int)
      && !(negative && n == 0) then
    return (.int value, cs)
  else
    let x : Decimal.Numeral := ⟨negative, n, exponent.getD 0 - behind.length⟩
    return (if x.toBinary64?.isNone then .unreadable else .float x, cs)

/-- A word whose first letter has been seen. -/
def keyword (tail : List Char) (n : Node) (cs : List Char) : Node × Rest :=
  if tail.isPrefixOf cs then (n, some (cs.drop tail.length)) else (.hole, none)

/-! ## Values -/

mutual

/-- A value with so much fuel. -/
def value : (fuel : Nat) → List Char → Node × Rest
  | 0, _ => (.hole, none)
  | fuel + 1, cs =>
    match skipSpace cs with
    | [] => (.hole, none)
    | 'n' :: rest => keyword ['u', 'l', 'l'] .null rest
    | 't' :: rest => keyword ['r', 'u', 'e'] (.bool true) rest
    | 'f' :: rest => keyword ['a', 'l', 's', 'e'] (.bool false) rest
    | '"' :: rest =>
      match string? rest with
      | some (some s, rest) => (.text (String.ofList s), some rest)
      | some (none, rest) => (.unreadable, some rest)
      | none => (.hole, none)
    | '[' :: rest =>
      match skipSpace rest with
      | ']' :: rest => (.list [], some rest)
      | rest =>
        let (items, rest) := items fuel rest
        (.list items, rest)
    | '\x7b' :: rest =>
      match skipSpace rest with
      | '\x7d' :: rest => (.record [] false, some rest)
      | rest =>
        match members fuel rest with
        | (fs, true, some rest) => (.unnamed fs, some rest)
        | (fs, brokenOff, rest) => (.record fs brokenOff, rest)
    | cs =>
      match number? cs with
      | some (n, rest) => (n, some rest)
      | none => (.hole, none)

/-- Items up to the closing bracket. -/
def items : (fuel : Nat) → List Char → List Node × Rest
  | 0, _ => ([.hole], none)
  | fuel + 1, cs =>
    match value fuel cs with
    | (n, none) => ([n], none)
    | (n, some rest) =>
      match skipSpace rest with
      | ']' :: rest => ([n], some rest)
      | ',' :: rest =>
        let (ns, rest) := items fuel rest
        (n :: ns, rest)
      | _ => ([n, .hole], none)

/-- Members up to the closing brace, or up to one that cannot be named: there the text breaks off,
or the key has half a character and the text goes on behind it. -/
def members : (fuel : Nat) → List Char → List (String × Node) × Bool × Rest
  | 0, _ => ([], true, none)
  | fuel + 1, cs =>
    match skipSpace cs with
    | '"' :: rest =>
      match string? rest with
      | none => ([], true, none)
      | some (none, rest) =>
        match skipSpace rest with
        | ':' :: rest =>
          match value fuel rest with
          | (_, none) => ([], true, none)
          | (_, some rest) =>
            match skipSpace rest with
            | '\x7d' :: rest => ([], true, some rest)
            | ',' :: rest =>
              let (_, _, rest) := members fuel rest
              ([], true, rest)
            | _ => ([], true, none)
        | _ => ([], true, none)
      | some (some k, rest) =>
        let k := String.ofList k
        match skipSpace rest with
        | ':' :: rest =>
          match value fuel rest with
          | (n, none) => ([(k, n)], false, none)
          | (n, some rest) =>
            match skipSpace rest with
            | '\x7d' :: rest => ([(k, n)], false, some rest)
            | ',' :: rest =>
              let (fs, brokenOff, rest) := members fuel rest
              ((k, n) :: fs, brokenOff, rest)
            | _ => ([(k, n)], true, none)
        | _ => ([(k, .hole)], false, none)
    | _ => ([], true, none)

end

/-- **The tree of a text**, and whether the text is well formed. A value takes a character at
least, so the length is fuel enough. -/
def ofText (text : String) : Node × Bool :=
  let (n, rest) := value (2 * text.length + 2) text.toList
  (n, rest.any fun cs => (skipSpace cs).isEmpty)

namespace Node

mutual

/-- Does the text break off inside the value? -/
def hasHole : Node → Bool
  | .hole => true
  | .list ns => anyHole ns
  | .record fs brokenOff => brokenOff || anyFieldHole fs
  | _ => false

/-- Does the text break off inside one of the values? -/
def anyHole : List Node → Bool
  | [] => false
  | n :: ns => n.hasHole || anyHole ns

/-- Does the text break off inside one of the fields? -/
def anyFieldHole : List (String × Node) → Bool
  | [] => false
  | (_, n) :: fs => n.hasHole || anyFieldHole fs

end

end Node

end RegistryFleet.Json
