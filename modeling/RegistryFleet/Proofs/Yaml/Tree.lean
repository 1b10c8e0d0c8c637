import RegistryFleet.Data
import RegistryFleet.Yaml.Node

/-!
# Proofs/Yaml/Tree — the tokens of a tree make up a document of that tree

A tree of texts is laid out as a block or between braces. The two layouts mark the fields of a
record alike and differ in the marks around and between them, so one walk along the tokens serves
both.

* `Data.IsTree` — trees whose leaves are texts.
* `Layout` — the marks of a layout, and what the reader of events does at each of them.
* `Layout.ofReading_tokens` — the document of a tree's tokens.
-/

namespace RegistryFleet

/-- **A tree of texts.** -/
inductive Data.IsTree (key text : String → Prop) : Data → Prop
  | text {s : String} (allowed : text s) : IsTree key text (.text s)
  | record {fs : List (String × Data)} (filled : fs ≠ []) (keys : ∀ f ∈ fs, key f.1)
      (parts : ∀ f ∈ fs, IsTree key text f.2) : IsTree key text (.record fs)

namespace Yaml

/-- A scalar or collection with neither tag nor anchor. -/
abbrev Properties.bare : Properties := ⟨none, none⟩

open Event

/-! ## Layouts -/

/-- **Where a value is read**: behind the tokens given, at a place, such that then other places are
open. A record is opened by the mark given, and its first key is read at the place given. -/
structure Awaits (opening : Token) (first : Place) (lead : List Token) (p : Place)
    (after : List Place) : Prop where
  scalar : ∀ (names : TagNames) (places : List Place) (s : String) (plain : Bool) (ts : List Token),
    step? names p places (lead ++ .scalar s plain :: ts)
      = some (.scalar .bare plain s, ⟨after ++ places, ts⟩)
  record : ∀ (names : TagNames) (places : List Place) (ts : List Token),
    step? names p places (lead ++ opening :: ts)
      = some (.recordStart .bare, ⟨first :: (after ++ places), ts⟩)

/-- **How records are marked**, and which scalars stand without quotes. -/
structure Layout where
  opening : Token
  closing : Token
  /-- The marks between two fields. -/
  between : List Token
  /-- Is a key, or else a value, without quotes? -/
  plain : (key : Bool) → String → Bool
  /-- The place of a key, of the first one or of a further one. -/
  keyPlace : (first : Bool) → Place
  valuePlace : Place
  key_step : ∀ (names : TagNames) (places : List Place) (first : Bool) (k : String) (p : Bool)
    (ts : List Token),
    step? names (keyPlace first) places
        ((if first then [] else between) ++ .key :: .scalar k p :: ts)
      = some (.scalar .bare p k, ⟨valuePlace :: places, ts⟩)
  end_step : ∀ (names : TagNames) (places : List Place) (first : Bool) (ts : List Token),
    step? names (keyPlace first) places (closing :: ts) = some (.recordEnd, ⟨places, ts⟩)
  value_step : Awaits opening (keyPlace true) [.value] valuePlace [keyPlace false]
  root_step : Awaits opening (keyPlace true) [] .bare []

namespace Layout

/-- The layout of blocks. -/
def block (plain : (key : Bool) → String → Bool) : Layout where
  opening := .blockMappingStart
  closing := .blockEnd
  between := []
  plain := plain
  keyPlace _ := .key
  valuePlace := .value
  key_step _ _ first _ _ _ := by cases first <;> rfl
  end_step _ _ _ _ := rfl
  value_step := ⟨fun _ _ _ _ _ => rfl, fun _ _ _ => rfl⟩
  root_step := ⟨fun _ _ _ _ _ => rfl, fun _ _ _ => rfl⟩

/-- The layout between braces, where every scalar is quoted. -/
def braces : Layout where
  opening := .flowMappingStart
  closing := .flowMappingEnd
  between := [.flowEntry]
  plain _ _ := false
  keyPlace := .flowKey
  valuePlace := .flowValue
  key_step _ _ first _ _ _ := by cases first <;> rfl
  end_step _ _ _ _ := rfl
  value_step := ⟨fun _ _ _ _ _ => rfl, fun _ _ _ => rfl⟩
  root_step := ⟨fun _ _ _ _ _ => rfl, fun _ _ _ => rfl⟩

variable (w : Layout)

mutual

/-- The tokens of a tree. -/
def tokens : Data → List Token
  | .text s => [.scalar s (w.plain false s)]
  | .record fs => w.opening :: (fieldTokens true fs ++ [w.closing])
  | _ => []

/-- The tokens of fields, of the first ones or of further ones. -/
def fieldTokens (first : Bool) : List (String × Data) → List Token
  | [] => []
  | (k, d) :: rest =>
    (if first then [] else w.between) ++ .key :: .scalar k (w.plain true k) :: .value
      :: (tokens d ++ fieldTokens false rest)

end

mutual

/-- The events of a tree. -/
def events : Data → List Event
  | .text s => [.scalar .bare (w.plain false s) s]
  | .record fs => .recordStart .bare :: (fieldEvents fs ++ [.recordEnd])
  | _ => []

/-- The events of fields. -/
def fieldEvents : List (String × Data) → List Event
  | [] => []
  | (k, d) :: rest => .scalar .bare (w.plain true k) k :: (events d ++ fieldEvents rest)

end

mutual

/-- The tree as a node. -/
def node : Data → Node
  | .text s => .scalar none (w.plain false s) s
  | .record fs => .record none (fieldNodes fs)
  | _ => .void

/-- Fields as nodes. -/
def fieldNodes : List (String × Data) → List (Node × Node)
  | [] => []
  | (k, d) :: rest => (.scalar none (w.plain true k) k, node d) :: fieldNodes rest

end

/-! ## From tokens to events -/

/-- So many steps yield these events, and lead to another place. -/
def Yields (names : TagNames) (r : Reader) (es : List Event) (r' : Reader) : Prop :=
  ∀ steps, collect names (es.length + steps) r
    = (es ++ (collect names steps r').1, (collect names steps r').2)

variable {names : TagNames} {r r' r'' : Reader} {es es' : List Event} {p : Place}
  {places after : List Place} {lead ts : List Token}

theorem Yields.refl : Yields names r [] r := fun steps => by rw [List.length_nil, Nat.zero_add]; rfl

theorem Yields.trans (h : Yields names r es r') (h' : Yields names r' es' r'') :
    Yields names r (es ++ es') r'' := fun steps => by
  rw [List.length_append, Nat.add_assoc, h, h', List.append_assoc]

theorem Yields.cons {e : Event} (hstep : step? names p places ts = some (e, r'))
    (h : Yields names r' es r'') : Yields names ⟨p :: places, ts⟩ (e :: es) r'' := fun steps => by
  rw [List.length_cons, Nat.add_right_comm, collect]
  simp only [hstep, h steps, List.cons_append]

/-- Fields yield their events if their values do, up to the mark behind the last one. -/
theorem yields_fields {fs : List (String × Data)}
    (hvalues : ∀ f ∈ fs, ∀ (places : List Place) (ts : List Token),
      Yields names ⟨w.valuePlace :: places, .value :: (w.tokens f.2 ++ ts)⟩ (w.events f.2)
        ⟨w.keyPlace false :: places, ts⟩) : ∀ (first : Bool),
    Yields names ⟨w.keyPlace first :: places, w.fieldTokens first fs ++ w.closing :: ts⟩
      (w.fieldEvents fs ++ [.recordEnd]) ⟨places, ts⟩ := by
  induction fs with
  | nil => exact fun first => .cons (w.end_step names places first ts) .refl
  | cons f fs ih =>
    obtain ⟨k, d⟩ := f
    obtain ⟨hvalue, hvalues⟩ := List.forall_mem_cons.1 hvalues
    intro first
    rw [fieldTokens, fieldEvents, List.cons_append, List.append_assoc (w.events d)]
    refine .cons ?_ ((hvalue places (w.fieldTokens false fs ++ w.closing :: ts)).trans
      (ih hvalues false))
    rw [List.append_assoc]
    simp only [List.cons_append, List.append_assoc]
    exact w.key_step names places first k _ _

/-- **A tree yields its events** where a value is read. -/
theorem yields_tree {key text : String → Prop} {d : Data} (h : d.IsTree key text) :
    ∀ {lead : List Token} {p : Place} {after : List Place} (places : List Place) (ts : List Token),
    Awaits w.opening (w.keyPlace true) lead p after →
    Yields names ⟨p :: places, lead ++ (w.tokens d ++ ts)⟩ (w.events d) ⟨after ++ places, ts⟩ := by
  induction h with
  | text hs =>
    intro lead p after places ts hp
    rw [tokens, events]
    exact .cons (hp.scalar names places _ _ ts) .refl
  | @record fs _ _ _ ih =>
    intro lead p after places ts hp
    rw [tokens, events, List.cons_append, List.append_assoc]
    refine .cons (hp.record names places _) (w.yields_fields (fun f hf places ts => ?_) true)
    exact ih f hf places ts w.value_step

/-! ## From events to nodes -/

/-- What a record under construction holds of its fields. -/
def parts (fs : List (Node × Node)) : List Node := fs.flatMap fun f => [f.1, f.2]

theorem pairs_parts : ∀ fs : List (Node × Node), Frame.pairs (parts fs) = fs
  | [] => rfl
  | (k, v) :: fs => congrArg ((k, v) :: ·) (pairs_parts fs)

/-- The tree under construction inside one more open record that holds the nodes given. -/
def inside (b : Builder) (held : List Node) : Builder :=
  { b with frames := ⟨true, none, none, held⟩ :: b.frames }

variable {b : Builder} {held : List Node}

theorem step_scalar (hlost : b.lost = false) (plain : Bool) (s : String) :
    b.step (.scalar .bare plain s) = b.add none (.scalar none plain s) := by
  simp [Builder.step, hlost, Builder.note]

theorem step_recordStart (hlost : b.lost = false) : b.step (.recordStart .bare) = inside b [] := by
  simp [Builder.step, hlost, Builder.note, inside]

theorem add_inside (n : Node) : (inside b held).add none n = inside b (n :: held) := rfl

/-- The end of a record adds the record. -/
theorem step_recordEnd (hlost : b.lost = false) (fs : List (Node × Node)) :
    (inside b (parts fs).reverse).step .recordEnd = b.add none (.record none fs) := by
  rw [Builder.step, if_neg (by simp [inside, hlost])]
  simp [Builder.close, inside, Frame.close, pairs_parts]

/-- Fields add their keys and values to the open record. -/
theorem foldl_fieldEvents (hlost : b.lost = false) {fs : List (String × Data)}
    (hvalues : ∀ f ∈ fs, ∀ b : Builder, b.lost = false →
      (w.events f.2).foldl Builder.step b = b.add none (w.node f.2)) : ∀ held : List Node,
    (w.fieldEvents fs).foldl Builder.step (inside b held)
      = inside b ((parts (w.fieldNodes fs)).reverse ++ held) := by
  induction fs with
  | nil => exact fun held => rfl
  | cons field fs ih =>
    obtain ⟨k, d⟩ := field
    obtain ⟨hvalue, hvalues⟩ := List.forall_mem_cons.1 hvalues
    intro held
    have hinside : ∀ held, (inside b held).lost = false := fun _ => hlost
    rw [fieldEvents, fieldNodes, List.foldl_cons, List.foldl_append, step_scalar (hinside held),
      add_inside, show (w.events d).foldl _ _ = _ from hvalue _ (hinside _), add_inside, ih hvalues]
    simp [parts]

/-- **A tree's events** add its node. -/
theorem foldl_events {key text : String → Prop} {d : Data} (h : d.IsTree key text) :
    ∀ (b : Builder), b.lost = false →
    (w.events d).foldl Builder.step b = b.add none (w.node d) := by
  induction h with
  | text =>
    intro b hlost
    rw [events, node, List.foldl_cons, List.foldl_nil, step_scalar hlost]
  | @record fs _ _ _ ih =>
    intro b hlost
    rw [events, node, List.foldl_cons, List.foldl_append, step_recordStart hlost,
      w.foldl_fieldEvents hlost ih, List.append_nil]
    exact step_recordEnd hlost _

/-! ## The document -/

/-- Every event takes a token, so the steps suffice. -/
theorem length_events_le {key text : String → Prop} {d : Data} (h : d.IsTree key text) :
    (w.events d).length ≤ (w.tokens d).length := by
  have hfields : ∀ (fs : List (String × Data)),
      (∀ f ∈ fs, (w.events f.2).length ≤ (w.tokens f.2).length) → ∀ first,
      (w.fieldEvents fs).length ≤ (w.fieldTokens first fs).length := by
    intro fs
    induction fs with
    | nil => exact fun _ _ => Nat.le_refl _
    | cons f fs ih =>
      obtain ⟨k, d⟩ := f
      intro hvalues first
      obtain ⟨hvalue, hvalues⟩ := List.forall_mem_cons.1 hvalues
      have := ih hvalues false
      simp only [fieldEvents, fieldTokens, List.length_append, List.length_cons] at hvalue ⊢
      omega
  induction h with
  | text => exact Nat.le_refl _
  | record _ _ _ ih =>
    have := hfields _ ih true
    simp only [events, tokens, List.length_append, List.length_cons, List.length_nil]
    omega

/-- The document of a tree. -/
def document (d : Data) : Document := ⟨w.node d, [], true⟩

/-- Content that needs no mark in front of it is read at once. -/
theorem ofTokens_bare {t : Token} {next : Event × Reader}
    (h : step? defaultTagNames .bare [] (t :: ts) = some next) :
    Reading.ofTokens (t :: ts) = .ofReader defaultTagNames ⟨[.bare], t :: ts⟩ := by
  cases t <;> first | rfl | cases h

/-- **A tree's tokens make up its document.** -/
theorem ofText_tokens {key text : String → Prop} {d : Data} (h : d.IsTree key text) {s : String}
    (hs : Token.ofText s.toList = w.tokens d ++ [.streamEnd]) :
    Document.ofText s = w.document d := by
  have hyields : Yields defaultTagNames ⟨[.bare], w.tokens d ++ [.streamEnd]⟩ (w.events d)
      ⟨[], [.streamEnd]⟩ := w.yields_tree h [] [.streamEnd] w.root_step
  have hsteps : (w.events d).length + 1 ≤ 4 * (w.tokens d ++ [Token.streamEnd]).length + 10 := by
    have := w.length_events_le h
    rw [List.length_append]
    omega
  obtain ⟨more, hmore⟩ := Nat.exists_eq_add_of_le hsteps
  have hcollect : collect defaultTagNames (4 * (w.tokens d ++ [Token.streamEnd]).length + 10)
      ⟨[.bare], w.tokens d ++ [.streamEnd]⟩ = (w.events d, some [.streamEnd]) := by
    rw [hmore, Nat.add_assoc]
    refine (hyields (1 + more)).trans ?_
    rw [Nat.add_comm 1, collect]
    simp
  have hreading : Reading.ofText s = .document (w.events d) true := by
    have hbare : Reading.ofTokens (w.tokens d ++ [.streamEnd])
        = .ofReader defaultTagNames ⟨[.bare], w.tokens d ++ [.streamEnd]⟩ := by
      cases h with
      | text =>
        rw [tokens]
        exact ofTokens_bare (w.root_step.scalar _ [] _ _ _)
      | record =>
        rw [tokens]
        exact ofTokens_bare (w.root_step.record _ [] _)
    rw [Reading.ofText, hs, hbare, Reading.ofReader, hcollect]
    rfl
  rw [Document.ofText, hreading]
  simp only [Document.ofEvents]
  rw [w.foldl_events h Builder.start rfl]
  rfl

end Layout

end Yaml

end RegistryFleet
