import RegistryFleet.Backend.Call
import RegistryFleet.Credential.Key
import RegistryFleet.Reconcile.Interruption

/-!
# Reconcile/Work — what one unit does, step by step

The work of a unit is a tree like a tree of calls, with two more kinds of nodes: asking whether the
run has been interrupted, and carrying out an effect. A call is either part of an **action**, which
runs to its end, or an **observation**, which is abandoned when the run is interrupted.

* `Work.smaller_wf` — a unit cannot go on for ever: whatever the answers, each step leaves a smaller
  tree.
-/

namespace RegistryFleet

/-- **The work of a unit**, which ends in a value. -/
inductive Work (α : Type)
  | done (value : α)
  /-- Ask whether the run has been interrupted. -/
  | check (next : Option Interruption → Work α)
  /-- Make a call and wait for its answer. -/
  | call (c : Call) (next : c.Answer → Work α)
  /-- Make a call and wait for its answer, unless the run is interrupted first. -/
  | observe (c : Call) (next : Except Interruption c.Answer → Work α)
  /-- Carry out an effect. -/
  | settle (e : Effect) (next : Except Error Unit → Work α)

namespace Work

variable {α β : Type}

/-- Goes on with `f` where the work ends. -/
def bind : Work α → (α → Work β) → Work β
  | done a, f => f a
  | check next, f => check fun a => (next a).bind f
  | call c next, f => call c fun a => (next a).bind f
  | observe c next, f => observe c fun a => (next a).bind f
  | settle e next, f => settle e fun a => (next a).bind f

instance : Monad Work where
  pure := done
  bind := bind

/-- Has the run been interrupted? -/
def interrupted : Work (Option Interruption) := check done

/-- Carries out an effect. -/
def settling (e : Effect) : Work (Except Error Unit) := settle e done

/-- The calls of an action. -/
def acting : Calls α → Work α
  | .done a => done a
  | .ask c next => call c fun answer => acting (next answer)

/-- The calls of an observation. -/
def observing : Calls α → Work (Except Interruption α)
  | .done a => done (.ok a)
  | .ask c next =>
    observe c fun
      | .ok answer => observing (next answer)
      | .error i => done (.error i)

theorem bind_assoc {γ : Type} (w : Work α) (f : α → Work β) (g : β → Work γ) :
    (w.bind f).bind g = w.bind fun a => (f a).bind g := by
  induction w with
  | done a => rfl
  | check next ih => simp [bind, ih]
  | call c next ih => simp [bind, ih]
  | observe c next ih => simp [bind, ih]
  | settle e next ih => simp [bind, ih]

/-- The value of work that has ended. -/
def value? : Work α → Option α
  | done a => some a
  | _ => none

/-! ## Steps end -/

/-- One step of the work leaves the first tree of the second. -/
inductive Smaller : Work α → Work α → Prop
  | check (next : Option Interruption → Work α) (a : Option Interruption) :
      Smaller (next a) (.check next)
  | call (c : Call) (next : c.Answer → Work α) (a : c.Answer) : Smaller (next a) (.call c next)
  | observe (c : Call) (next : Except Interruption c.Answer → Work α)
      (a : Except Interruption c.Answer) : Smaller (next a) (.observe c next)
  | settle (e : Effect) (next : Except Error Unit → Work α) (a : Except Error Unit) :
      Smaller (next a) (.settle e next)

/-- **Work ends**, whatever the answers. -/
theorem smaller_wf : WellFounded (Smaller (α := α)) := by
  constructor
  intro w
  induction w with
  | done a => exact ⟨_, fun y h => by cases h⟩
  | check next ih => exact ⟨_, fun y h => by cases h with | check _ a => exact ih a⟩
  | call c next ih => exact ⟨_, fun y h => by cases h with | call _ _ a => exact ih a⟩
  | observe c next ih => exact ⟨_, fun y h => by cases h with | observe _ _ a => exact ih a⟩
  | settle e next ih => exact ⟨_, fun y h => by cases h with | settle _ _ a => exact ih a⟩

/-- One of several works has made a step. -/
inductive OneSmaller : List (Work α) → List (Work α) → Prop
  | head {w' w : Work α} (ws : List (Work α)) : Smaller w' w → OneSmaller (w' :: ws) (w :: ws)
  | tail (w : Work α) {ws' ws : List (Work α)} :
      OneSmaller ws' ws → OneSmaller (w :: ws') (w :: ws)

private theorem oneSmaller_acc_cons {w : Work α} (hw : Acc Smaller w) :
    ∀ ws : List (Work α), Acc OneSmaller ws → Acc OneSmaller (w :: ws) := by
  induction hw with
  | intro w _ ihw =>
    intro ws hws
    induction hws with
    | intro ws hacc ihws =>
      refine ⟨_, fun y h => ?_⟩
      cases h with
      | head _ h => exact ihw _ h ws ⟨_, hacc⟩
      | tail _ h => exact ihws _ h

/-- **Works end together**: steps of several works, taken one at a time in any order, end. -/
theorem oneSmaller_wf : WellFounded (OneSmaller (α := α)) := by
  constructor
  intro ws
  induction ws with
  | nil => exact ⟨_, fun y h => by cases h⟩
  | cons w ws ih => exact oneSmaller_acc_cons (smaller_wf.apply w) ws ih

theorem oneSmaller_set {ws : List (Work α)} {i : Nat} {w w' : Work α} (h : ws[i]? = some w)
    (hw : Smaller w' w) : OneSmaller (ws.set i w') ws := by
  induction ws generalizing i with
  | nil => simp at h
  | cons v vs ih =>
    cases i with
    | zero =>
      simp at h
      subst h
      exact .head vs hw
    | succ i => exact .tail v (ih (by simpa using h))

end Work

end RegistryFleet
