import RegistryFleet.Keyed

/-!
# Data — what documents are made of

Every document that is written, as YAML or as JSON, is first a tree of plain data. The fields of a
record are written in the order in which they stand.
-/

namespace RegistryFleet

/-- **Plain data.** -/
inductive Data
  | null
  | bool (value : Bool)
  | int (value : Int)
  | text (value : String)
  | list (items : List Data)
  | record (fields : List (String × Data))
  deriving Repr

namespace Data

/-- The fields that are there. -/
def fields (options : List (String × Option Data)) : Data :=
  .record (options.filterMap fun (name, value) => value.map fun v => (name, v))

/-- A map of texts. -/
def ofTexts (m : Keyed String) : Data :=
  .record (m.entries.map fun (k, v) => (k, .text v))

/-- A list of texts. -/
def texts (items : List String) : Data := .list (items.map .text)

/-- What a record holds under a name. -/
def field? (d : Data) (name : String) : Option Data :=
  match d with
  | .record fs => (fs.find? fun f => f.1 == name).map (·.2)
  | _ => none

end Data

end RegistryFleet
