import RegistryFleet.Proofs.Reconcile.Interleaving

/-!
# Proofs/Reconcile/InTurn — units one after another, and units in any order

The simplest way through a phase is to do its units **in turn**, each by itself from its first step
to its last. An **interleaving** is any other: one unit, whichever, makes a step, until all have
ended. Signals come in neither.

* `Machine.inTurn_interleaves` — units in turn are one of the interleavings.
* `Schedule.phase_interleaves` — so is a phase by which no signal has come, whatever the latencies
  and however many units it holds in flight.
-/

namespace RegistryFleet

variable {ω α : Type}

/-- **A unit by itself**: its value, and the world after it. -/
def Work.alone (serve : Calls.Server ω) (settle : Effect → ω → Except Error Unit × ω) :
    Work α → ω → α × ω
  | .done a, world => (a, world)
  | .check next, world => alone serve settle (next none) world
  | .call c next, world =>
    let (answer, world) := serve c world
    alone serve settle (next answer) world
  | .observe c next, world =>
    let (answer, world) := serve c world
    alone serve settle (next (.ok answer)) world
  | .settle e next, world =>
    let (settled, world) := settle e world
    alone serve settle (next settled) world

namespace Machine

/-- **Units in turn**: their values, and the world after the last. -/
def inTurn (machine : Machine ω) : List (Job α) → ω → List α × ω
  | [], world => ([], world)
  | job :: rest, world =>
    let (a, world) := job.work.alone (machine.serve job.backend) machine.settle world
    let (as, world) := machine.inTurn rest world
    (a :: as, world)

/-- **Units in some order**, of which no step sees a signal, to their values. -/
def Interleaves (machine : Machine ω) (jobs : List (Job α)) (before : ω) (values : List α)
    (after : ω) : Prop :=
  Relation.ReflTransGen (machine.Step (Job.backendOf jobs) True) (jobs.map Job.work, before)
    (values.map Work.done, after)

variable {machine : Machine ω} {backendOf : Nat → Nat}

/-- A step of a unit, and what follows on it. -/
theorem head_reaches {calm : Prop} {works : List (Work α)} {u : Nat} {w w' x : Work α}
    {world world' after : ω} (hu : works[u]? = some w)
    (hw : Work.Step (machine.serve (backendOf u)) machine.settle calm (w, world) (w', world'))
    (h : (works.set u w')[u]? = some w' →
      Relation.ReflTransGen (machine.Step backendOf calm) (works.set u w', world')
        ((works.set u w').set u x, after)) :
    Relation.ReflTransGen (machine.Step backendOf calm) (works, world) (works.set u x, after) := by
  have hlater := h (List.getElem?_set_self (List.getElem?_eq_some_iff.1 hu).1)
  rw [List.set_set] at hlater
  exact .head (.unit hu hw) hlater

/-- One unit by itself, while the others wait. -/
theorem alone_reaches (machine : Machine ω) (backendOf : Nat → Nat) {u : Nat} (w : Work α) :
    ∀ {works : List (Work α)} (world : ω), works[u]? = some w →
      Relation.ReflTransGen (machine.Step backendOf True) (works, world)
        (works.set u (.done (w.alone (machine.serve (backendOf u)) machine.settle world).1),
          (w.alone (machine.serve (backendOf u)) machine.settle world).2) := by
  induction w with
  | done a =>
    intro works world hu
    obtain ⟨hlt, hwork⟩ := List.getElem?_eq_some_iff.1 hu
    rw [Work.alone, ← hwork, List.set_getElem_self]
  | check next ih =>
    intro works world hu
    exact head_reaches hu (.check next world none fun _ => rfl) (ih none world)
  | call c next ih =>
    intro works world hu
    exact head_reaches hu (.call c next world) (ih _ _)
  | observe c next ih =>
    intro works world hu
    exact head_reaches hu (.observe c next world) (ih _ _)
  | settle e next ih =>
    intro works world hu
    exact head_reaches hu (.settle e next world) (ih _ _)

/-- The units that are left, in turn, after those that have ended. -/
theorem inTurn_reaches : ∀ (jobs : List (Job α)) (ended : List α) (world : ω),
    (∀ k job, jobs[k]? = some job → backendOf (ended.length + k) = job.backend) →
      Relation.ReflTransGen (machine.Step backendOf True)
        (ended.map Work.done ++ jobs.map Job.work, world)
        ((ended ++ (machine.inTurn jobs world).1).map Work.done, (machine.inTurn jobs world).2)
  | [], ended, world, _ => by
      rw [inTurn, List.append_nil, List.map_nil, List.append_nil]
  | job :: rest, ended, world, h => by
      have hfirst : (ended.map Work.done ++ (job :: rest).map Job.work)[ended.length]?
          = some job.work := by simp
      have hbackend : backendOf ended.length = job.backend := h 0 job rfl
      have halone := alone_reaches machine backendOf job.work world hfirst
      rw [hbackend] at halone
      have hrest := inTurn_reaches rest
        (ended ++ [(job.work.alone (machine.serve job.backend) machine.settle world).1])
        (job.work.alone (machine.serve job.backend) machine.settle world).2 fun k j hj => by
          have hlater := h (k + 1) j hj
          rw [List.length_append, List.length_singleton, Nat.add_assoc, Nat.add_comm 1 k]
          exact hlater
      refine halone.trans ?_
      simpa [inTurn] using hrest

/-- **Units in turn are an interleaving.** -/
theorem inTurn_interleaves (machine : Machine ω) (jobs : List (Job α)) (world : ω) :
    machine.Interleaves jobs world (machine.inTurn jobs world).1 (machine.inTurn jobs world).2 :=
  inTurn_reaches jobs [] world fun k job hjob => by
    rw [List.length_nil, Nat.zero_add]
    exact Job.backendOf_eq hjob

end Machine

/-- **A phase by which no signal has come is an interleaving**, whatever the latencies and however
many units it holds in flight. -/
theorem Schedule.phase_interleaves {machine : Machine ω} {signals : Signals}
    {concurrent now : Nat} {jobs : List (Job α)} {world : ω} (hc : 0 < concurrent)
    (hcalm : signals.at? (phase machine signals concurrent now jobs world).now = none) :
    ∃ values, machine.Interleaves jobs world values
        (phase machine signals concurrent now jobs world).world
      ∧ (phase machine signals concurrent now jobs world).values.Perm values := by
  obtain ⟨values, hworks, hvalues⟩ := phase_ends machine signals now jobs world hc
  have hreaches := phase_reaches (fun _ : True => hcalm)
  rw [hworks] at hreaches
  exact ⟨values, hreaches, hvalues⟩

end RegistryFleet
