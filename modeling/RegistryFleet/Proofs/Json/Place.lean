import RegistryFleet.Proofs.Json.Document
import RegistryFleet.Proofs.Json.Typed
import RegistryFleet.Proofs.Keyed

/-!
# Proofs/Json/Place — what a document says, and where

A place in a document is a list of field names. There the document says nothing, or a value, or that
there is a record, whose fields are what it says further down. So documents that say the same at
every place may differ in how they are written and in nothing else.

* `Node.look` — what a document says at a place.
* `Node.Sets` — one document is the other with the value of one place.
* `Data.field?_ofMap` — a map that is written as a record.
-/

namespace RegistryFleet

open Json (lastField?)

namespace Json.Node

/-- What stands in a record under a name. -/
def field? : Node → String → Option Node
  | .record fs _, name => lastField? name fs
  | _, _ => none

/-- A value as it is, and of a record that it is one. -/
def face : Node → Node
  | .record .. => .record [] false
  | n => n

/-- **What a document says at a place.** -/
def look : Option Node → List String → Option Node
  | none, _ => none
  | some n, [] => some n.face
  | some n, name :: place => look (n.field? name) place

@[simp] theorem look_none (place : List String) : look none place = none := by
  cases place <;> rfl

/-- What is said below a name is said of what stands under the name. -/
theorem exists_field_of_look {n m : Node} {name : String} {place : List String}
    (h : look (some n) (name :: place) = some m) :
    ∃ n', n.field? name = some n' ∧ look (some n') place = some m := by
  rw [look] at h
  rcases hfield : n.field? name with _ | n'
  · rw [hfield, look_none] at h
    cases h
  · rw [hfield] at h
    exact ⟨n', rfl, h⟩

/-- Nothing is said inside a text. -/
theorem eq_nil_of_look_text {s : String} {m : Node} : ∀ {place : List String},
    look (some (.text s)) place = some m → place = []
  | [], _ => rfl
  | _ :: place, h => nomatch (look_none place).symm.trans h

/-- Nothing is said inside a list, which is one value. -/
theorem eq_nil_of_look_list {ns : List Node} {m : Node} : ∀ {place : List String},
    look (some (.list ns)) place = some m → place = []
  | [], _ => rfl
  | _ :: place, h => nomatch (look_none place).symm.trans h

/-- **One place is set** — there, `body` says what the value says, and everywhere else what `doc`
says; the records that lead to the place may be new. -/
structure Sets (place : List String) (value doc body : Option Node) : Prop where
  there : ∀ below, look body (place ++ below) = look value below
  aside : ∀ other, ¬ place <+: other → ¬ other <+: place → look body other = look doc other
  above : ∀ other n, other <+: place → other ≠ place → look doc other = some n →
    look body other = some n

end Json.Node

/-! ## Maps written as records -/

/-- A map that is written as a record holds under a key what the key is bound to. -/
theorem Json.lastField?_of_increasing {α : Type} (f : α → Json.Node) (key : String) :
    ∀ {es : List (String × α)}, Increasing es →
      lastField? key (es.map fun e => (e.1, f e.2)) = (Keyed.lookUp? key es).map f
  | [], _ => rfl
  | (k, v) :: rest, h => by
      obtain ⟨hk, hrest⟩ := List.pairwise_cons.1 h
      rw [List.map_cons, lastField?, lastField?_of_increasing f key hrest, Keyed.lookUp?]
      by_cases he : key = k
      · subst he
        have hnone : Keyed.lookUp? key rest = none := by
          refine Option.eq_none_iff_forall_ne_some.2 fun v' hv => ?_
          exact String.lt_irrefl key (hk (key, v') ((Keyed.mem_entries_iff hrest).2 hv))
        rw [hnone, if_pos rfl, if_pos rfl]
        rfl
      · rw [if_neg he, if_neg (Ne.symm he), Option.or_none]

/-- **A map written as a record.** -/
theorem Data.field?_ofMap {α : Type} (m : Keyed α) (f : α → Data) (key : String) :
    (Data.record (m.entries.map fun e => (e.1, f e.2))).node.field? key
      = (m.get? key).map fun v => (f v).node := by
  rw [Data.node, Json.Node.field?, Data.fieldNodes_eq_map, List.map_map]
  exact Json.lastField?_of_increasing (fun v => (f v).node) key m.sorted

end RegistryFleet
