import RegistryFleet.Yaml.Token

/-!
# Yaml/Event — a document as beginnings and ends

Events bring the marks into order: every collection begins and ends, every key has a value, and a
value that is left out is an empty scalar. While a collection is open, its **place** says what may
come next; the places of all open collections form a stack, and every step yields one event.
-/

namespace RegistryFleet.Yaml

/-- What may stand in front of a value: its tag and its anchor. -/
structure Properties where
  tag : Option String
  anchor : Option String
  deriving DecidableEq, Repr

/-- **Beginnings, ends and scalars.** -/
inductive Event
  | alias (name : String)
  | scalar (props : Properties) (plain : Bool) (text : String)
  | listStart (props : Properties)
  | listEnd
  | recordStart (props : Properties)
  | recordEnd
  deriving DecidableEq, Repr

/-- **What may come next** in an open collection, or in a document. -/
inductive Place
  /-- The content of a document behind its mark. -/
  | content
  /-- The content of a document without one. -/
  | bare
  /-- An item of a list, or its end. -/
  | item
  /-- An item of a list that is no further right than its key. -/
  | flatItem
  | key
  | value
  /-- An item between brackets; the first has no comma in front. -/
  | flowItem (first : Bool)
  /-- The key, the value and the end of a single pair between brackets. -/
  | pairKey
  | pairValue
  | pairEnd
  /-- A key between braces; the first has no comma in front. -/
  | flowKey (first : Bool)
  | flowValue
  /-- The value of a key between braces that was not marked as one. -/
  | flowNoValue
  deriving DecidableEq, Repr

namespace Event

/-- A scalar that is left out. -/
def empty : Event := .scalar ⟨none, none⟩ true ""

/-- What handles of tags stand for. -/
abbrev TagNames := List (String × String)

/-- The handles that are always known. -/
def defaultTagNames : TagNames := [("!", "!"), ("!!", "tag:yaml.org,2002:")]

/-- The tag that a handle and a suffix write. -/
def resolveTag? (names : TagNames) (front suffix : String) : Option String :=
  if front = "" then some suffix
  else (names.find? fun n => n.1 == front).map fun n => n.2 ++ suffix

/-- A tag and an anchor, in either order. -/
def properties? (names : TagNames) : List Token → Option (Properties × List Token)
  | .anchor a :: .tag f x :: ts => do return (⟨some (← resolveTag? names f x), some a⟩, ts)
  | .tag f x :: .anchor a :: ts => do return (⟨some (← resolveTag? names f x), some a⟩, ts)
  | .anchor a :: ts => some (⟨none, some a⟩, ts)
  | .tag f x :: ts => do return (⟨some (← resolveTag? names f x), none⟩, ts)
  | ts => some (⟨none, none⟩, ts)

/-- A reader between two events: the places of what is open, and the tokens that are left. -/
structure Reader where
  places : List Place
  tokens : List Token

/-- The outcome of a step. -/
abbrev Step := Option (Event × Reader)

/-- **A value**: behind it the places given are open. In a block, collections may be marked by
indentation; a flat list may stand where its items are no further right than their key. -/
def node? (names : TagNames) (block flat : Bool) (places : List Place) : List Token → Step
  | .alias a :: ts => some (.alias a, ⟨places, ts⟩)
  | ts => do
    let (props, ts) ← properties? names ts
    let bare : Properties := if props.tag = some "!" then { props with tag := none } else props
    match ts with
    | [] => none
    | .scalar text plain :: rest => some (.scalar bare plain text, ⟨places, rest⟩)
    | .flowSequenceStart :: rest => some (.listStart props, ⟨.flowItem true :: places, rest⟩)
    | .flowMappingStart :: rest => some (.recordStart props, ⟨.flowKey true :: places, rest⟩)
    | t :: rest =>
      if flat && t = .blockEntry then some (.listStart props, ⟨.flatItem :: places, ts⟩)
      else if block && t = .blockSequenceStart then some (.listStart props, ⟨.item :: places, rest⟩)
      else if block && t = .blockMappingStart then
        some (.recordStart props, ⟨.key :: places, rest⟩)
      else if props = ⟨none, none⟩ then none
      else some (.scalar props true "", ⟨places, ts⟩)

/-- A value in front of the tokens given, or one that is left out if one of the marks follows. -/
def nodeUnless? (names : TagNames) (marks : List Token) (block flat : Bool) (places : List Place)
    (ts : List Token) : Step :=
  match ts with
  | [] => none
  | t :: _ =>
    if marks.contains t then some (empty, ⟨places, ts⟩) else node? names block flat places ts

/-- The tokens behind the comma that every item but the first needs. -/
def behindComma? (first : Bool) : List Token → Option (List Token)
  | .flowEntry :: ts => if first then some (.flowEntry :: ts) else some ts
  | ts => if first then some ts else none

/-- An item between brackets. -/
def flowItem? (names : TagNames) (places : List Place) : List Token → Step
  | [] => none
  | .flowSequenceEnd :: ts => some (.listEnd, ⟨places, ts⟩)
  | .key :: ts => some (.recordStart ⟨none, none⟩, ⟨.pairKey :: places, ts⟩)
  | ts => node? names false false (.flowItem false :: places) ts

/-- A key between braces. -/
def flowKey? (names : TagNames) (places : List Place) : List Token → Step
  | [] => none
  | .flowMappingEnd :: ts => some (.recordEnd, ⟨places, ts⟩)
  | .key :: ts =>
    nodeUnless? names [.value, .flowEntry, .flowMappingEnd] false false (.flowValue :: places) ts
  | ts => node? names false false (.flowNoValue :: places) ts

/-- The tokens with which no content of a document begins. -/
def endsContent : Token → Bool
  | .directive _ | .documentStart | .documentEnd | .streamEnd => true
  | _ => false

/-- **One event**, at the innermost open place. -/
def step? (names : TagNames) : Place → List Place → List Token → Step
  | _, _, [] => none
  | .content, places, t :: ts =>
    if endsContent t then some (empty, ⟨places, t :: ts⟩)
    else node? names true false places (t :: ts)
  | .bare, places, ts => node? names true false places ts
  | .item, places, .blockEntry :: ts =>
    nodeUnless? names [.blockEntry, .blockEnd] true false (.item :: places) ts
  | .item, places, .blockEnd :: ts => some (.listEnd, ⟨places, ts⟩)
  | .item, _, _ => none
  | .flatItem, places, .blockEntry :: ts =>
    nodeUnless? names [.blockEntry, .key, .value, .blockEnd] true false (.flatItem :: places) ts
  | .flatItem, places, ts => some (.listEnd, ⟨places, ts⟩)
  | .key, places, .key :: ts =>
    nodeUnless? names [.key, .value, .blockEnd] true true (.value :: places) ts
  | .key, places, .blockEnd :: ts => some (.recordEnd, ⟨places, ts⟩)
  | .key, _, _ => none
  | .value, places, .value :: ts =>
    nodeUnless? names [.key, .value, .blockEnd] true true (.key :: places) ts
  | .value, places, ts => some (empty, ⟨.key :: places, ts⟩)
  | .flowItem _, places, .flowSequenceEnd :: ts =>
    flowItem? names places (.flowSequenceEnd :: ts)
  | .flowItem first, places, ts => do flowItem? names places (← behindComma? first ts)
  | .pairKey, places, t :: ts =>
    if [.value, .flowEntry, .flowSequenceEnd].contains t then
      some (empty, ⟨.pairValue :: places, ts⟩)
    else node? names false false (.pairValue :: places) (t :: ts)
  | .pairValue, places, .value :: ts =>
    nodeUnless? names [.flowEntry, .flowSequenceEnd] false false (.pairEnd :: places) ts
  | .pairValue, places, ts => some (empty, ⟨.pairEnd :: places, ts⟩)
  | .pairEnd, places, ts => some (.recordEnd, ⟨.flowItem false :: places, ts⟩)
  | .flowKey _, places, .flowMappingEnd :: ts =>
    flowKey? names places (.flowMappingEnd :: ts)
  | .flowKey first, places, ts => do flowKey? names places (← behindComma? first ts)
  | .flowValue, places, .value :: ts =>
    nodeUnless? names [.flowEntry, .flowMappingEnd] false false (.flowKey false :: places) ts
  | .flowValue, places, ts => some (empty, ⟨.flowKey false :: places, ts⟩)
  | .flowNoValue, places, ts => some (empty, ⟨.flowKey false :: places, ts⟩)

/-- The events up to the end of the document, with at most so many steps, and the tokens behind it;
where the document is ill formed, the events in front of that place. -/
def collect (names : TagNames) : (steps : Nat) → Reader → List Event × Option (List Token)
  | 0, _ => ([], none)
  | steps + 1, r =>
    match r.places with
    | [] => ([], some r.tokens)
    | p :: places =>
      match step? names p places r.tokens with
      | none => ([], none)
      | some (e, next) =>
        let (es, rest) := collect names steps next
        (e :: es, rest)

/-- The directives in front of a document: the handles that it knows, and the tokens behind them. -/
def directives? : (version : Bool) → TagNames → List Token → Option (TagNames × List Token)
  | version, names, .directive (.version major minor) :: ts =>
    if version || major ≠ 1 || (minor ≠ 1 && minor ≠ 2) then none
    else directives? true names ts
  | version, names, .directive (.tag front replacement) :: ts =>
    if names.any fun n => n.1 == front then none
    else directives? version (names ++ [(front, replacement)]) ts
  | _, names, ts => some (names ++ defaultTagNames, ts)

end Event

/-- **A text read as one document.** -/
inductive Reading
  /-- There is no document. -/
  | void
  /-- The events of the first document as far as it is well formed, and whether it is well formed
  and nothing follows it. -/
  | document (events : List Event) (complete : Bool)

namespace Reading

/-- Do only marks of documents' ends follow? -/
def isLast : List Token → Bool
  | [.streamEnd] => true
  | .documentEnd :: ts => isLast ts
  | _ => false

/-- The document that begins at a place. Every step takes a token or closes a place that a token
has opened. -/
def ofReader (names : Event.TagNames) (r : Event.Reader) : Reading :=
  let (events, rest) := Event.collect names (4 * r.tokens.length + 10) r
  .document events (rest.any isLast)

/-- The first document of some tokens. -/
def ofTokens : List Token → Reading
  | [] => .document [] false
  | .streamEnd :: _ => .void
  | t :: ts =>
    match t with
    | .directive _ | .documentStart =>
      match Event.directives? false [] (t :: ts) with
      | some (names, .documentStart :: rest) => ofReader names ⟨[.content], rest⟩
      | _ => .document [] false
    | _ => ofReader Event.defaultTagNames ⟨[.bare], t :: ts⟩

/-- **The first document of a text.** -/
def ofText (text : String) : Reading := ofTokens (Token.ofText text.toList)

end Reading

end RegistryFleet.Yaml
