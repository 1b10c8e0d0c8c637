/-!
# Reconcile/Interruption — the signals that end a run early

A run ends early when its deadline passes or when it is cancelled. Time is counted in milliseconds
from the start of the run, and a signal that has come stays.
-/

namespace RegistryFleet

/-- **Why work was not begun, or an observation abandoned.** -/
inductive Interruption
  | deadline
  | cancelled
  deriving DecidableEq, Repr

/-- The words of an interruption. -/
def Interruption.reason : Interruption → String
  | deadline => "deadline exceeded"
  | cancelled => "run cancelled"

/-- **When the signals come** — each stays once it has come: it is assumed of whoever may cancel a
run that a cancellation is not taken back. -/
structure Signals where
  deadline : Nat
  /-- When the run is cancelled, if it is: from then on to its end. -/
  cancel : Option Nat
  deriving DecidableEq, Repr

namespace Signals

/-- The signal that has come by an instant; a cancellation is seen first. -/
def at? (s : Signals) (now : Nat) : Option Interruption :=
  if s.cancel.any fun t => t ≤ now then some .cancelled
  else if s.deadline ≤ now then some .deadline
  else none

/-- The first signal in front of an instant, and when it is noticed by work that waits from `now`
on. -/
def before? (s : Signals) (now due : Nat) : Option (Nat × Interruption) :=
  let deadline := if s.deadline < due then some (max now s.deadline, Interruption.deadline) else none
  match s.cancel with
  | none => deadline
  | some t =>
    if t < due ∧ (t ≤ s.deadline ∨ deadline.isNone) then some (max now t, .cancelled)
    else deadline

end Signals

end RegistryFleet
