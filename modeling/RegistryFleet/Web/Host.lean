import RegistryFleet.Text.Cut
import RegistryFleet.Web.Percent

/-!
# Web/Host — the host of an address

A host is a number of four or sixteen octets or a name. Names are written in lower case, and labels
beyond ASCII by their coding in ASCII. Such labels are assumed to be in the form that lookups use
(`Host.name`).
-/

namespace RegistryFleet.Web

/-- **What is wrong with an address.** -/
inductive UrlFault
  | emptyHost
  | badName
  | badPort
  | badIpv4
  | badIpv6
  | badDomain
  | noBase
  | opaqueBase
  deriving DecidableEq, Repr

/-- The wording. -/
def UrlFault.message : UrlFault → String
  | emptyHost => "empty host"
  | badName => "invalid international domain name"
  | badPort => "invalid port number"
  | badIpv4 => "invalid IPv4 address"
  | badIpv6 => "invalid IPv6 address"
  | badDomain => "invalid domain character"
  | noBase => "relative URL without a base"
  | opaqueBase => "relative URL with a cannot-be-a-base base"

namespace Host

/-! ## Numbers of four octets -/

/-- A number in base ten, after a zero in base eight, after `0x` in base sixteen. -/
def number? (cs : List Char) : Option Nat :=
  match cs with
  | [] => none
  | '0' :: 'x' :: rest | '0' :: 'X' :: rest =>
    if rest.isEmpty then some 0 else Text.readNat? 16 rest
  | '0' :: d :: rest => Text.readNat? 8 (d :: rest)
  | _ => Text.readNat? 10 cs

/-- The labels of a name; an empty one at the end does not count. -/
def labels (cs : List Char) : List (List Char) :=
  let all := cs.splitOn '.'
  if 1 < all.length ∧ all.getLast? = some [] then all.dropLast else all

/-- Does the name end in a number? -/
def endsInNumber (cs : List Char) : Bool :=
  match (labels cs).getLast? with
  | none | some [] => false
  | some label => label.all Char.isDigit || (number? label).isSome

/-- The value of numbers, the last of which fills the octets that are left. -/
def ipv4Value? (numbers : List Nat) : Option Nat :=
  match numbers.reverse with
  | [] => none
  | last :: front =>
    let left := 4 - front.length
    if 4 ≤ front.length ∨ Nat.pow 256 left ≤ last ∨ front.any (255 < ·) then none
    else some (front.reverse.foldl (fun v n => v * 256 + n) 0 * Nat.pow 256 left + last)

/-- Four octets with points. -/
def dotted (v : Nat) : String :=
  ".".intercalate ([3, 2, 1, 0].map fun i => toString (v / Nat.pow 256 i % 256))

/-- A number of four octets. -/
def ipv4 (cs : List Char) : Except UrlFault String :=
  match (labels cs).mapM number? with
  | none => .error .badIpv4
  | some numbers =>
    match ipv4Value? numbers with
    | some v => .ok (dotted v)
    | none => .error .badIpv4

/-! ## Numbers of sixteen octets -/

/-- A group of up to four digits. -/
def group? (cs : List Char) : Option Nat :=
  if cs.length ≤ 4 then Text.readNat? 16 cs else none

/-- Four octets with points at the end of a longer number. -/
def tail? (cs : List Char) : Option (List Nat) := do
  let parts ← (cs.splitOn '.').mapM fun part =>
    match Text.readNat? 10 part with
    | some n =>
      if 255 < n || (1 < part.length && part.head? == some '0') || !part.all Char.isDigit then none
      else some n
    | none => none
  match parts with
  | [a, b, c, d] => some [a * 256 + b, c * 256 + d]
  | _ => none

/-- Groups with colons between; the last may be four octets with points. -/
def groups? : List (List Char) → Option (List Nat)
  | [] => some []
  | [last] => if last.contains '.' then tail? last else (group? last).map ([·])
  | g :: rest => do return (← group? g) :: (← groups? rest)

/-- The eight groups of a number; two colons stand for groups of zeros. -/
def ipv6Groups? (cs : List Char) : Option (List Nat) :=
  let read (cs : List Char) : Option (List Nat) :=
    if cs.isEmpty then some [] else groups? (cs.splitOn ':')
  match Text.cutAtMark? [':', ':'] cs with
  | none => do
    let gs ← read cs
    if gs.length = 8 then some gs else none
  | some (front, back) => do
    let a ← if front.contains '.' then none else read front
    let b ← read back
    if a.length + b.length ≤ 7 then
      some (a ++ List.replicate (8 - a.length - b.length) 0 ++ b)
    else none

/-- The digits of a group without needless zeros. -/
def groupText (n : Nat) : String :=
  let digits := (Text.lowerHex 4 n).dropWhile (· == '0')
  if digits.isEmpty then "0" else String.ofList digits

/-- How many zeros stand at the front. -/
def leadingZeros (gs : List Nat) : Nat := (gs.takeWhile (· == 0)).length

/-- Where the first of the longest runs of zeros begins, and how long it is. -/
def longestZeros : (place : Nat) → List Nat → Nat × Nat
  | place, [] => (place, 0)
  | place, g :: gs =>
    let here := leadingZeros (g :: gs)
    let (later, length) := longestZeros (place + 1) gs
    if length ≤ here then (place, here) else (later, length)

/-- Eight groups with colons, the longest run of zeros left out. -/
def ipv6Text (gs : List Nat) : String :=
  let join (gs : List Nat) : String := ":".intercalate (gs.map groupText)
  let (start, length) := longestZeros 0 gs
  if length < 2 then join gs
  else join (gs.take start) ++ "::" ++ join (gs.drop (start + length))

/-! ## Names -/

/-- The coding of labels beyond ASCII. -/
structure LabelState where
  written : List Char
  delta : Nat
  bias : Nat
  handled : Nat

/-- A digit of the coding: letters, then decimal digits. -/
def labelDigit (d : Nat) : Char :=
  if d < 26 then Char.ofNat ('a'.toNat + d) else Char.ofNat ('0'.toNat + (d - 26))

/-- A difference, lowest digit first, with so much fuel. -/
def labelDigits (bias : Nat) : (fuel : Nat) → (k q : Nat) → List Char
  | 0, _, _ => []
  | fuel + 1, k, q =>
    let t := if k ≤ bias then 1 else if bias + 26 ≤ k then 26 else k - bias
    if q < t then [labelDigit q]
    else labelDigit (t + (q - t) % (36 - t)) :: labelDigits bias fuel (k + 36) ((q - t) / (36 - t))

/-- Divides until the difference is small, with so much fuel. -/
def adaptLoop : (fuel : Nat) → (delta k : Nat) → Nat
  | 0, _, k => k
  | fuel + 1, delta, k =>
    if 455 < delta then adaptLoop fuel (delta / 35) (k + 36) else k + 36 * delta / (delta + 38)

/-- The bias after a difference. -/
def adapt (delta count : Nat) (first : Bool) : Nat :=
  let d := if first then delta / 700 else delta / 2
  adaptLoop (d + d / count) (d + d / count) 0

/-- Takes one character of the label in the round for the code point `m`. -/
def labelStep (basic m : Nat) (s : LabelState) (c : Char) : LabelState :=
  if c.toNat < m then { s with delta := s.delta + 1 }
  else if c.toNat = m then
    { written := s.written ++ labelDigits s.bias (s.delta + 1) 36 s.delta
      delta := 0
      bias := adapt s.delta (s.handled + 1) (s.handled == basic)
      handled := s.handled + 1 }
  else s

/-- One round for each code point beyond ASCII, in increasing order. -/
def labelRounds (label : List Char) (basic : Nat) : List Nat → (n : Nat) → LabelState → LabelState
  | [], _, s => s
  | m :: rest, n, s =>
    let s := { s with delta := s.delta + (m - n) * (s.handled + 1) }
    let s := label.foldl (labelStep basic m) s
    labelRounds label basic rest (m + 1) { s with delta := s.delta + 1 }

/-- A label in ASCII. -/
def asciiLabel (label : List Char) : List Char :=
  let basic := label.filter fun c => c.toNat < 0x80
  if basic.length = label.length then label
  else
    let points := (label.filter fun c => 0x80 ≤ c.toNat).map Char.toNat
    let points := (points.mergeSort).eraseDups
    let lead := if basic.isEmpty then [] else basic ++ ['-']
    let s := labelRounds label basic.length points 0x80 ⟨lead, 0, 72, basic.length⟩
    ['x', 'n', '-', '-'] ++ s.written

/-- Characters of ASCII that no name may contain. -/
def isDenied (c : Char) : Bool :=
  c.toNat ≤ 0x20 || c.toNat == 0x7F || "%/:<>?@[\\]^|#".toList.contains c

/-- A character of a name as it counts: letters of ASCII in lower case, and one kind of point. Any
other character counts as it stands. -/
def nameChar (c : Char) : Char := if c.toNat = 0x3002 then '.' else c.toLower

/-- **A name in ASCII.** It is assumed that a name beyond ASCII is given in the form that lookups
use: its characters mapped already (letters in lower case, no full-width digits, no soft hyphens),
composed, and allowed in names. None of this is done or checked here, and neither are labels that
come as `xn--`: such a label passes whatever it codes, `xn--a.example` for one. -/
def name (cs : List Char) : Except UrlFault (List Char) :=
  match Text.Utf8.decode? (percentDecode cs) with
  | none => .error .badName
  | some s =>
    let cs := s.toList.map nameChar
    if cs.any isDenied then .error .badName
    else .ok (['.'].intercalate ((cs.splitOn '.').map asciiLabel))

/-- A number of sixteen octets between brackets. -/
def bracketed (cs : List Char) : Except UrlFault String :=
  if cs.getLast? ≠ some ']' then .error .badIpv6
  else
    match ipv6Groups? (cs.drop 1).dropLast with
    | some gs => .ok ("[" ++ ipv6Text gs ++ "]")
    | none => .error .badIpv6

/-- **The host of a web address.** -/
def ofText (cs : List Char) : Except UrlFault String :=
  if cs.head? = some '[' then bracketed cs
  else do
    let domain ← name cs
    if domain.isEmpty then throw .emptyHost
    if endsInNumber domain then ipv4 domain else return String.ofList domain

/-- Characters that no host may contain. -/
def isForbidden (c : Char) : Bool :=
  c.toNat == 0 || "\t\n\r #/:<>?@[\\]^|".toList.contains c

/-- The host of an address of another scheme, which has no rules of its own. -/
def opaqueText (cs : List Char) : Except UrlFault String :=
  if cs.head? = some '[' then bracketed cs
  else if cs.any isForbidden then .error .badDomain
  else .ok (String.ofList (percentEncode (fun _ => false) cs))

end Host

end RegistryFleet.Web
