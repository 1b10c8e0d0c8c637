import RegistryFleet.Reconcile.Work

/-!
# Reconcile/Schedule — units side by side

At most so many units are in flight at once; the next one begins when one ends. A unit in flight
waits for the node at the front of its work, and the unit whose wait ends first makes the next
step; of several that end together, the one that began to wait first.

* `Schedule.run` — the schedule to its end; `Work.oneSmaller_wf` is why there is one.
-/

namespace RegistryFleet

/-- **What units work on**: the backends, each under a number, and the place for effects. -/
structure Machine (ω : Type) where
  serve : Nat → Calls.Server ω
  /-- How long each call to a backend takes, in milliseconds. -/
  latency : Nat → Nat
  settle : Effect → ω → Except Error Unit × ω

/-- A unit in flight, waiting. -/
structure Flight where
  /-- When the wait ends. -/
  due : Nat
  /-- The number of the unit. -/
  unit : Nat
  /-- The signal that ends the wait before its answer comes. -/
  cut : Option Interruption
  deriving DecidableEq, Repr

/-- A unit of a phase: its backend and what is left of its work. -/
structure Job (α : Type) where
  backend : Nat
  work : Work α

/-- **A phase in progress.** -/
structure Schedule (ω α : Type) where
  world : ω
  now : Nat
  /-- What is left of the work of each unit, by number. -/
  works : List (Work α)
  /-- The units in flight, in the order of their next steps. -/
  flights : List Flight
  /-- The units not yet begun, in order. -/
  waiting : List Nat
  /-- The units that have ended, in the order in which they did. -/
  ended : List Nat

namespace Schedule

variable {ω α : Type}

/-- Puts a unit in flight behind those that are due no later. -/
def enqueue (f : Flight) : List Flight → List Flight
  | [] => [f]
  | g :: rest => if g.due ≤ f.due then g :: enqueue f rest else f :: g :: rest

/-- The unit that waits for the front node of its work from `now` on. -/
def flightOf (signals : Signals) (latency now unit : Nat) : Work α → Flight
  | .call .. => ⟨now + latency, unit, none⟩
  | .observe .. =>
    if latency = 0 then ⟨now, unit, none⟩
    else
      match signals.before? now (now + latency) with
      | some (instant, i) => ⟨instant, unit, some i⟩
      | none => ⟨now + latency, unit, none⟩
  | _ => ⟨now, unit, none⟩

/-- A step of the work of a unit on a backend: what is left, and the world after it. -/
def advance (machine : Machine ω) (signals : Signals) (backend : Nat) (f : Flight) (world : ω) :
    Work α → Work α × ω
  | .done a => (.done a, world)
  | .check next => (next (signals.at? f.due), world)
  | .call c next =>
    let (answer, world) := machine.serve backend c world
    (next answer, world)
  | .observe c next =>
    match f.cut with
    | some i => (next (.error i), world)
    | none =>
      let (answer, world) := machine.serve backend c world
      (next (.ok answer), world)
  | .settle e next =>
    let (settled, world) := machine.settle e world
    (next settled, world)

/-- Must the unit wait for the front node of its work? -/
def waits (latency : Nat) : Work α → Bool
  | .call .. | .observe .. => latency != 0
  | _ => false

/-- Begins the next unit, at the back of those due now. -/
def beginNext (signals : Signals) (latency : Nat → Nat) (s : Schedule ω α) : Schedule ω α :=
  match s.waiting with
  | [] => s
  | u :: rest =>
    let flight := (s.works[u]?).elim ⟨s.now, u, none⟩ (flightOf signals (latency u) s.now u)
    { s with flights := enqueue flight s.flights, waiting := rest }

/-- Begins so many units. -/
def beginMany (signals : Signals) (latency : Nat → Nat) : (count : Nat) → Schedule ω α →
    Schedule ω α
  | 0, s => s
  | count + 1, s => beginMany signals latency count (beginNext signals latency s)

/-- **The next step**: the first unit in flight advances, and goes on, waits again or ends. -/
def next? (machine : Machine ω) (signals : Signals) (backendOf : Nat → Nat)
    (s : Schedule ω α) : Option (Schedule ω α) :=
  let latency (u : Nat) : Nat := machine.latency (backendOf u)
  match s.flights with
  | [] => none
  | f :: rest =>
    match s.works[f.unit]? with
    | none => some { s with flights := rest }
    | some (.done _) =>
      some (beginNext signals latency
        { s with now := f.due, flights := rest, ended := s.ended ++ [f.unit] })
    | some w =>
      let (w', world) := advance machine signals (backendOf f.unit) f s.world w
      let flight := flightOf signals (latency f.unit) f.due f.unit w'
      some { s with
        world := world
        now := f.due
        works := s.works.set f.unit w'
        flights := if waits (latency f.unit) w' then enqueue flight rest else flight :: rest }

/-! ## The schedule ends -/

/-- What is left to do: the works, and how many units have not ended. -/
structure Remaining (α : Type) where
  works : List (Work α)
  units : Nat

instance : WellFoundedRelation (Remaining α) where
  rel a b := Prod.Lex Work.OneSmaller (· < ·) (a.works, a.units) (b.works, b.units)
  wf := InvImage.wf (fun r : Remaining α => (r.works, r.units))
    (Prod.lex ⟨Work.OneSmaller, Work.oneSmaller_wf⟩ Nat.lt_wfRel).wf

/-- What is left of a schedule. -/
def remaining (s : Schedule ω α) : Remaining α := ⟨s.works, s.flights.length + s.waiting.length⟩

theorem length_enqueue (f : Flight) (fs : List Flight) :
    (enqueue f fs).length = fs.length + 1 := by
  induction fs with
  | nil => rfl
  | cons g rest ih =>
    unfold enqueue
    split <;> simp [ih]

theorem remaining_beginNext (signals : Signals) (latency : Nat → Nat) (s : Schedule ω α) :
    (beginNext signals latency s).remaining = s.remaining := by
  unfold beginNext
  split
  · rfl
  · next u rest h => simp [remaining, h, length_enqueue]; omega

theorem advance_smaller (machine : Machine ω) (signals : Signals) (backend : Nat) (f : Flight)
    (world : ω) (w : Work α) (h : ∀ a, w ≠ .done a) :
    Work.Smaller (advance machine signals backend f world w).1 w := by
  cases w with
  | done a => exact absurd rfl (h a)
  | check next => exact .check next _
  | call c next => exact .call c next _
  | observe c next =>
    unfold advance
    cases f.cut with
    | none => exact .observe c next _
    | some i => exact .observe c next _
  | settle e next => exact .settle e next _

/-- Every step leaves less to do. -/
theorem remaining_next (machine : Machine ω) (signals : Signals) (backendOf : Nat → Nat)
    (s s' : Schedule ω α) (h : s.next? machine signals backendOf = some s') :
    WellFoundedRelation.rel s'.remaining s.remaining := by
  unfold next? at h
  split at h
  · simp at h
  · next f rest hf =>
    split at h
    · simp at h
      subst h
      exact Prod.Lex.right _ (by simp [remaining, hf])
    · simp at h
      subst h
      rw [remaining_beginNext]
      exact Prod.Lex.right _ (by simp [remaining, hf])
    · next w hw hdone =>
      simp at h
      subst h
      exact Prod.Lex.left _ _ (Work.oneSmaller_set hdone
        (advance_smaller machine signals _ f s.world w hw))

/-- **The schedule to its end.** -/
def run (machine : Machine ω) (signals : Signals) (backendOf : Nat → Nat) (s : Schedule ω α) :
    Schedule ω α :=
  match _h : s.next? machine signals backendOf with
  | none => s
  | some s' => run machine signals backendOf s'
termination_by s.remaining
decreasing_by exact remaining_next machine signals backendOf s s' _h

/-- The values of the units that have ended, in the order in which they did. -/
def values (s : Schedule ω α) : List α :=
  s.ended.filterMap fun u => (s.works[u]?).bind Work.value?

/-- **A phase**: its units side by side, at most so many at once, from an instant on. -/
def phase (machine : Machine ω) (signals : Signals) (concurrent now : Nat)
    (jobs : List (Job α)) (world : ω) : Schedule ω α :=
  let backendOf (u : Nat) : Nat := (jobs[u]?).elim 0 Job.backend
  let start : Schedule ω α :=
    ⟨world, now, jobs.map Job.work, [], List.range jobs.length, []⟩
  (beginMany signals (fun u => machine.latency (backendOf u)) (min concurrent jobs.length)
    start).run machine signals backendOf

end Schedule

end RegistryFleet
