import RegistryFleet.Yaml.Event

/-!
# Yaml/Node — a document as a tree

An alias stays a leaf that refers to an anchored node, so trees are finite even where a document
refers to itself. Where a document breaks off, the tree has a hole: what stands in front of the hole
can still be refused for what it is.
-/

namespace RegistryFleet.Yaml

/-- **A document's tree.** -/
inductive Node
  | scalar (tag : Option String) (plain : Bool) (text : String)
  | list (tag : Option String) (items : List Node)
  | record (tag : Option String) (fields : List (Node × Node))
  /-- The anchored node with this number. -/
  | alias (id : Nat)
  /-- There is no document. -/
  | void
  /-- The document breaks off here. -/
  | hole
  deriving Repr

namespace Node

mutual

/-- Does the document break off inside the node? -/
def hasHole : Node → Bool
  | .hole => true
  | .list _ items => anyHole items
  | .record _ fields => anyFieldHole fields
  | _ => false

/-- Does the document break off inside one of the nodes? -/
def anyHole : List Node → Bool
  | [] => false
  | n :: ns => n.hasHole || anyHole ns

/-- Does the document break off inside one of the fields? -/
def anyFieldHole : List (Node × Node) → Bool
  | [] => false
  | (k, v) :: fs => k.hasHole || v.hasHole || anyFieldHole fs

end

end Node

/-- An open collection. -/
structure Frame where
  isRecord : Bool
  tag : Option String
  /-- The place of its anchor among all anchors. -/
  serial : Option Nat
  /-- What it holds, last first. -/
  parts : List Node

namespace Frame

/-- Keys with their values; a key at the end has lost its value. -/
def pairs : List Node → List (Node × Node)
  | k :: v :: rest => (k, v) :: pairs rest
  | [k] => [(k, .hole)]
  | [] => []

/-- The collection, closed. -/
def close (f : Frame) : Node :=
  if f.isRecord then .record f.tag (pairs f.parts.reverse) else .list f.tag f.parts.reverse

/-- The collection, broken off. -/
def breakOff (f : Frame) : Frame :=
  if f.isRecord && f.parts.length % 2 == 1 then f else { f with parts := .hole :: f.parts }

end Frame

/-- **A tree under construction.** An anchor gets the count of anchors then known as its number; a
number that two anchors get belongs to the later one. -/
structure Builder where
  /-- The open collections, innermost first. -/
  frames : List Frame
  root : Option Node
  /-- The number of every anchor. -/
  numbers : List (String × Nat)
  /-- Which anchor a number belongs to. -/
  owners : List (Nat × Nat)
  /-- The anchored nodes by the place of their anchor. -/
  anchored : List (Nat × Node)
  /-- How many anchors there were. -/
  anchors : Nat
  /-- Was an unknown anchor referred to? -/
  lost : Bool

namespace Builder

/-- Nothing yet. -/
def start : Builder := ⟨[], none, [], [], [], 0, false⟩

/-- Notes an anchor. -/
def note (b : Builder) (props : Properties) : Builder × Option Nat :=
  match props.anchor with
  | none => (b, none)
  | some name =>
    let id := b.numbers.length
    ({ b with
        numbers := (name, id) :: b.numbers.filter fun n => n.1 != name
        owners := (id, b.anchors) :: b.owners
        anchors := b.anchors + 1 }, some b.anchors)

/-- Puts a finished node in its place. -/
def add (b : Builder) (serial : Option Nat) (n : Node) : Builder :=
  let b := match serial with
    | some s => { b with anchored := (s, n) :: b.anchored }
    | none => b
  match b.frames with
  | f :: fs => { b with frames := { f with parts := n :: f.parts } :: fs }
  | [] => { b with root := some n }

/-- Closes the innermost collection. -/
def close (b : Builder) : Builder :=
  match b.frames with
  | f :: fs => { b with frames := fs }.add f.serial f.close
  | [] => b

/-- Takes one event. -/
def step (b : Builder) (e : Event) : Builder :=
  if b.lost then b
  else
    match e with
    | .alias name =>
      match b.numbers.find? fun n => n.1 == name with
      | some (_, id) => b.add none (.alias id)
      | none => { b with lost := true }
    | .scalar props plain text =>
      let (b, serial) := b.note props
      b.add serial (.scalar props.tag plain text)
    | .listStart props =>
      let (b, serial) := b.note props
      { b with frames := ⟨false, props.tag, serial, []⟩ :: b.frames }
    | .recordStart props =>
      let (b, serial) := b.note props
      { b with frames := ⟨true, props.tag, serial, []⟩ :: b.frames }
    | .listEnd => b.close
    | .recordEnd => b.close

/-- Breaks off so many open collections. -/
def breakOff : (count : Nat) → Builder → Builder
  | 0, b => b
  | count + 1, b =>
    match b.frames with
    | f :: fs => breakOff count { b with frames := f.breakOff :: fs }.close
    | [] => b

end Builder

/-- **A document read.** -/
structure Document where
  root : Node
  /-- The anchored nodes by their numbers. -/
  anchored : List (Nat × Node)
  /-- Is the text well formed, and just this document? -/
  complete : Bool

namespace Document

/-- The document that some events make up. -/
def ofEvents (events : List Event) (complete : Bool) : Document :=
  let b := events.foldl Builder.step Builder.start
  let b := Builder.breakOff b.frames.length b
  let anchored := b.owners.filterMap fun (id, serial) =>
    (b.anchored.find? fun n => n.1 == serial).map fun n => (id, n.2)
  ⟨b.root.getD .hole, anchored, complete && !b.lost⟩

/-- **The document of a text.** -/
def ofText (text : String) : Document :=
  match Reading.ofText text with
  | .void => ⟨.void, [], true⟩
  | .document events complete => ofEvents events complete

/-- What an alias refers to; any other node is itself. -/
def follow (d : Document) : Node → Node
  | .alias id => ((d.anchored.find? fun n => n.1 == id).map (·.2)).getD .hole
  | n => n

end Document

end RegistryFleet.Yaml
