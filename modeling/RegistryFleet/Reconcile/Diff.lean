/-!
# Reconcile/Diff — what turns one list into another

The difference of an observed list and an expected one is a list of changes: first everything to
take away, then everything to put in, each group in the order of its list. An element that both
lists hold is never touched, whatever its multiplicity.
-/

namespace RegistryFleet

/-- One step from the observed towards the expected. -/
inductive Change (α : Type)
  /-- Observed, but not expected. -/
  | remove (element : α)
  /-- Expected, but not observed. -/
  | add (element : α)
  deriving DecidableEq, Repr

namespace Change

variable {α : Type}

/-- The element that a change is about. -/
def element : Change α → α
  | remove e | add e => e

/-- Does the change take its element away? -/
def isRemove : Change α → Bool
  | remove _ => true
  | add _ => false

/-- The elements that the changes take away, in order. -/
def removed (changes : List (Change α)) : List α :=
  changes.filterMap fun
    | remove e => some e
    | add _ => none

/-- The elements that the changes put in, in order. -/
def added (changes : List (Change α)) : List α :=
  changes.filterMap fun
    | remove _ => none
    | add e => some e

end Change

/-- **The difference** — removals in the order of `observed`, then additions in the order of
`expected`. -/
def diff {α : Type} [DecidableEq α] (observed expected : List α) : List (Change α) :=
  (observed.filter fun a => !expected.contains a).map Change.remove
    ++ (expected.filter fun e => !observed.contains e).map Change.add

end RegistryFleet
