import RegistryFleet.Text.Blank
import RegistryFleet.Web.Host

/-!
# Web/Url — addresses

An address is read from its text, and a path is put in place of the path of an address. Web schemes
have a host, a default port and paths without dot segments; an address of another scheme may have
a path that is just a text.
-/

namespace RegistryFleet.Web

/-- The path of an address. -/
inductive UrlPath
  /-- Segments, each behind a slash. -/
  | segments (names : List String)
  /-- Just a text. -/
  | bare (text : String)
  deriving DecidableEq, Repr

/-- The text of a path. -/
def UrlPath.text : UrlPath → String
  | segments names => String.join (names.map fun n => "/" ++ n)
  | bare text => text

/-- **An address.** -/
structure Url where
  scheme : String
  /-- User name and password with their marks, or nothing. -/
  userinfo : String
  host : Option String
  /-- The port, if it is not the default. -/
  port : Option Nat
  path : UrlPath
  query : Option String
  fragment : Option String
  deriving DecidableEq, Repr

namespace Url

/-! ## The text of an address -/

/-- The host with the port. -/
def hostText (u : Url) : String :=
  u.host.getD "" ++ u.port.elim "" fun p => ":" ++ toString p

/-- Everything in front of the path. -/
def front (u : Url) : String :=
  u.scheme ++ ":" ++ (if u.host.isSome then "//" ++ u.userinfo ++ u.hostText else "")

/-- The address without its fragment, as it is requested. -/
def requested (u : Url) : String :=
  u.front ++ u.path.text ++ u.query.elim "" ("?" ++ ·)

/-- **The text of an address.** -/
def text (u : Url) : String := u.requested ++ u.fragment.elim "" ("#" ++ ·)

/-- The address without user name and password. -/
def withoutUserinfo (u : Url) : Url := { u with userinfo := "" }

/-- The address with parameters at the end of its query. -/
def withParameters (u : Url) (parameters : List (String × String)) : Url :=
  if parameters.isEmpty then u
  else
    let added := "&".intercalate (parameters.map fun (k, v) => k ++ "=" ++ v)
    match u.query with
    | none => { u with query := some added }
    | some q => { u with query := some (if q = "" then added else q ++ "&" ++ added) }

/-! ## Schemes -/

/-- The default ports of the web schemes. -/
def defaultPort? (scheme : String) : Option Nat :=
  match scheme with
  | "http" | "ws" => some 80
  | "https" | "wss" => some 443
  | "ftp" => some 21
  | _ => none

/-- Is it a web scheme? -/
def isSpecial (scheme : String) : Bool := (defaultPort? scheme).isSome || scheme == "file"

/-- May requests be sent to the address? -/
def isWeb (u : Url) : Bool := u.scheme == "http" || u.scheme == "https"

/-! ## Paths -/

/-- Does the character divide segments? -/
def isSlash (special : Bool) (c : Char) : Bool := c == '/' || (special && c == '\\')

/-- The segments between slashes. -/
def splitPath (special : Bool) : List Char → List (List Char)
  | [] => [[]]
  | c :: cs =>
    if isSlash special c then [] :: splitPath special cs
    else
      match splitPath special cs with
      | s :: rest => (c :: s) :: rest
      | [] => [[c]]

/-- The segment in lower case, its escaped dots as dots. -/
def plainDots : List Char → List Char
  | '%' :: '2' :: e :: rest => if e == 'e' || e == 'E' then '.' :: plainDots rest else ['%']
  | '.' :: rest => '.' :: plainDots rest
  | [] => []
  | c :: _ => [c]

/-- Does the segment stand for its own place? -/
def isDot (s : List Char) : Bool := plainDots s == ['.']

/-- Does the segment stand for the place above? -/
def isDotDot (s : List Char) : Bool := plainDots s == ['.', '.']

/-- Takes one segment after another, those before given last first. A dot segment at the end leaves
an empty one. -/
def resolve : (before : List (List Char)) → List (List Char) → List (List Char)
  | before, [] => before.reverse
  | before, [s] =>
    if isDotDot s then ([] :: before.drop 1).reverse
    else if isDot s then ([] :: before).reverse
    else (s :: before).reverse
  | before, s :: rest =>
    if isDotDot s then resolve (before.drop 1) rest
    else if isDot s then resolve before rest
    else resolve (s :: before) rest

/-- The segments of a path behind its first slash. -/
def pathOf (special : Bool) (cs : List Char) : UrlPath :=
  let encoded := (splitPath special cs).map (percentEncode pathSet)
  .segments ((resolve [] encoded).map String.ofList)

/-- The path that follows a host. -/
def pathAfterHost (special : Bool) (cs : List Char) : UrlPath :=
  match cs with
  | [] => if special then pathOf special [] else .segments []
  | c :: rest => if isSlash special c then pathOf special rest else pathOf special (c :: rest)

/-! ## Reading -/

/-- Path, query and fragment of a text. -/
def parts (cs : List Char) : List Char × Option (List Char) × Option (List Char) :=
  let (rest, fragment) := match Text.cutAt? '#' cs with
    | some (front, back) => (front, some back)
    | none => (cs, none)
  match Text.cutAt? '?' rest with
  | some (path, query) => (path, some query, fragment)
  | none => (rest, none, fragment)

/-- A query, escaped. -/
def queryText (special : Bool) (cs : List Char) : String :=
  String.ofList (percentEncode (querySet special) cs)

/-- A fragment, escaped. -/
def fragmentText (cs : List Char) : String := String.ofList (percentEncode fragmentSet cs)

/-- The text without controls and blanks at its ends, and without tabs and breaks. -/
def clean (s : String) : List Char :=
  let edge (c : Char) : Bool := c.toNat ≤ 0x20
  (Text.dropEndWhile edge (s.toList.dropWhile edge)).filter fun c =>
    !(c == '\t' || c == '\n' || c == '\r')

/-- The scheme in lower case, and the text behind its colon. -/
def scheme? (cs : List Char) : Option (String × List Char) := do
  let (scheme, rest) ← Text.cutAt? ':' cs
  let valid (c : Char) : Bool := c.isAlphanum || c == '+' || c == '-' || c == '.'
  if scheme.head?.any Char.isAlpha && scheme.all valid then
    some (String.ofList (scheme.map Char.toLower), rest)
  else none

/-- User name and password with their marks, and the text behind them. -/
def splitUserinfo (cs : List Char) : String × List Char × Bool :=
  match (cs.splitOn '@').reverse with
  | [] | [_] => ("", cs, false)
  | rest :: front =>
    let whole := ['@'].intercalate front.reverse
    let (user, password) := (Text.cutAt? ':' whole).getD (whole, [])
    let write (cs : List Char) : String := String.ofList (percentEncode userinfoSet cs)
    let secret := if password.isEmpty then "" else ":" ++ write password
    let mark := if user.isEmpty && password.isEmpty then "" else "@"
    (write user ++ secret ++ mark, rest, true)

/-- The host and what stands behind the colon after it. -/
def splitPort : (inBrackets : Bool) → List Char → List Char × Option (List Char)
  | _, [] => ([], none)
  | inBrackets, c :: cs =>
    if c == ':' && !inBrackets then ([], some cs)
    else
      let inside := if c == '[' then true else if c == ']' then false else inBrackets
      let (host, port) := splitPort inside cs
      (c :: host, port)

/-- A port; the default one is left out. -/
def portOf (scheme : String) : Option (List Char) → Except UrlFault (Option Nat)
  | none => .ok none
  | some cs =>
    if !cs.all Char.isDigit then .error .badPort
    else
      match Text.readNat? 10 cs with
      | none => .ok none
      | some n =>
        if 65535 < n then .error .badPort
        else .ok (if defaultPort? scheme = some n then none else some n)

/-- The address of a scheme with the text behind its double slash. -/
def withHost (scheme : String) (cs : List Char) (query fragment : Option String) :
    Except UrlFault Url := do
  let special := isSpecial scheme
  let authority := cs.takeWhile fun c => !isSlash special c
  let path := cs.drop authority.length
  let (userinfo, rest, _) := splitUserinfo authority
  let (host, port) := splitPort false rest
  if host.isEmpty && (special || userinfo != "" || port.isSome) then throw .emptyHost
  let host ← if special then Host.ofText host else Host.opaqueText host
  let port ← portOf scheme port
  return ⟨scheme, userinfo, some host, port, pathAfterHost special path, query, fragment⟩

/-- The address of a file with the text behind the scheme. -/
def ofFile (cs : List Char) (query fragment : Option String) : Except UrlFault Url := do
  let behind := if cs.head?.any (isSlash true) then cs.drop 1 else cs
  if cs.head?.any (isSlash true) && behind.head?.any (isSlash true) then
    let rest := behind.drop 1
    let host := rest.takeWhile fun c => !isSlash true c
    let text ← if host.isEmpty then pure "" else Host.ofText host
    let text := if text = "localhost" then "" else text
    return ⟨"file", "", some text, none, pathAfterHost true (rest.drop host.length), query, fragment⟩
  else return ⟨"file", "", some "", none, pathOf true behind, query, fragment⟩

/-- **Reads an address.** -/
def parse (s : String) : Except UrlFault Url :=
  match scheme? (clean s) with
  | none => .error .noBase
  | some (scheme, cs) =>
    let special := isSpecial scheme
    let (path, query, fragment) := parts cs
    let query := query.map (queryText special)
    let fragment := fragment.map fragmentText
    if scheme = "file" then ofFile path query fragment
    else if special then
      withHost scheme (path.dropWhile (isSlash true)) query fragment
    else
      match path with
      | '/' :: '/' :: rest => withHost scheme rest query fragment
      | '/' :: rest => .ok ⟨scheme, "", none, none, pathOf false rest, query, fragment⟩
      | _ =>
        let text := String.ofList (percentEncode (fun _ => false) path)
        .ok ⟨scheme, "", none, none, .bare text, query, fragment⟩

/-- **Puts a path in place** of the address's own; the path begins with a slash and may bring a
query and a fragment. -/
def join (base : Url) (reference : String) : Except UrlFault Url :=
  match base.path with
  | .bare _ => .error .opaqueBase
  | .segments _ =>
    let special := isSpecial base.scheme
    let (path, query, fragment) := parts (clean reference)
    .ok { base with
      path := pathOf special (path.drop 1)
      query := query.map (queryText special)
      fragment := fragment.map fragmentText }

end Url

end RegistryFleet.Web
