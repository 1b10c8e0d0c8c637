import RegistryFleet.Proofs.Reconcile.Interleaving
import RegistryFleet.Reconcile.Run

/-!
# Proofs/Reconcile/Image — a run on the image of a world is the image of the run

A map of worlds **takes a machine to another** if the machines give the same answers, make their
callers wait as long and go on with worlds that the map still relates. No unit can tell such
machines apart, so a schedule takes the same course on both.

* `Machine.Takes` — what a single answer has to keep.
* `Schedule.next?_image` — what one step keeps, and `Schedule.phase_image` a whole phase.
* `Fleet.reconcile_image` — the reports of the two runs are equal.
-/

namespace RegistryFleet

variable {ω ω' α : Type} {f : ω → ω'} {machine : Machine ω} {machine' : Machine ω'}
  {signals : Signals} {backendOf : Nat → Nat}

/-- **The map takes the first machine to the second.** -/
structure Machine.Takes (f : ω → ω') (machine : Machine ω) (machine' : Machine ω') : Prop where
  serve : ∀ i c w, machine'.serve i c (f w) = ((machine.serve i c w).1, f (machine.serve i c w).2)
  latency : machine'.latency = machine.latency
  settle : ∀ e w, machine'.settle e (f w) = ((machine.settle e w).1, f (machine.settle e w).2)

/-- The run of a tree on the image of a state. -/
theorem Calls.run_image {server : Calls.Server ω} {server' : Calls.Server ω'}
    (h : ∀ c w, server' c (f w) = ((server c w).1, f (server c w).2)) :
    ∀ (t : Calls α) (w : ω), t.run server' (f w) = ((t.run server w).1, f (t.run server w).2)
  | .done _, _ => rfl
  | .ask c next, w => by
      rw [run, h]
      exact run_image h (next (server c w).1) (server c w).2

namespace Schedule

/-- The schedule with the image of its world. -/
def image (f : ω → ω') (s : Schedule ω α) : Schedule ω' α where
  world := f s.world
  now := s.now
  works := s.works
  flights := s.flights
  waiting := s.waiting
  ended := s.ended

@[simp] theorem world_image (s : Schedule ω α) : (s.image f).world = f s.world := rfl

@[simp] theorem now_image (s : Schedule ω α) : (s.image f).now = s.now := rfl

@[simp] theorem values_image (s : Schedule ω α) : (s.image f).values = s.values := rfl

/-- A step of a unit. -/
theorem advance_image (h : machine.Takes f machine') (backend : Nat) (flight : Flight) (w : ω)
    (work : Work α) :
    advance machine' signals backend flight (f w) work
      = ((advance machine signals backend flight w work).1,
          f (advance machine signals backend flight w work).2) := by
  cases work with
  | done a => rfl
  | check next => rfl
  | call c next => simp only [advance, h.serve]
  | observe c next => cases hcut : flight.cut <;> simp only [advance, hcut, h.serve]
  | settle e next => simp only [advance, h.settle]

theorem beginNext_image (latency : Nat → Nat) (s : Schedule ω α) :
    beginNext signals latency (s.image f) = (beginNext signals latency s).image f := by
  obtain ⟨world, now, works, flights, waiting, ended⟩ := s
  cases waiting <;> rfl

theorem beginMany_image (latency : Nat → Nat) : ∀ (count : Nat) (s : Schedule ω α),
    beginMany signals latency count (s.image f) = (beginMany signals latency count s).image f
  | 0, _ => rfl
  | count + 1, s => by
      rw [beginMany, beginNext_image]
      exact beginMany_image latency count (beginNext signals latency s)

/-- **A step of a schedule** on the image of its world. -/
theorem next?_image (h : machine.Takes f machine') (s : Schedule ω α) :
    (s.image f).next? machine' signals backendOf
      = (s.next? machine signals backendOf).map (image f) := by
  cases hflights : s.flights with
  | nil => simp only [next?, image, hflights, Option.map_none]
  | cons flight rest =>
    cases hwork : s.works[flight.unit]? with
    | none => simp only [next?, image, hflights, hwork, Option.map_some]
    | some work =>
      cases work with
      | done a =>
        simp only [next?, image, hflights, hwork, Option.map_some, h.latency, Option.some.injEq]
        exact beginNext_image (fun u => machine.latency (backendOf u))
          { s with now := flight.due, flights := rest, ended := s.ended ++ [flight.unit] }
      | _ => simp only [next?, image, hflights, hwork, Option.map_some, h.latency, advance_image h]

/-- **A schedule to its end** on the image of its world. -/
theorem run_image (h : machine.Takes f machine') (s : Schedule ω α) :
    (s.image f).run machine' signals backendOf = (s.run machine signals backendOf).image f := by
  induction s using Schedule.run.induct machine signals backendOf with
  | case1 s hs =>
    have himage : (s.image f).next? machine' signals backendOf = none := by
      rw [next?_image h, hs, Option.map_none]
    rw [run_of_next?_eq_none hs, run_of_next?_eq_none himage]
  | case2 s s' hs ih =>
    have himage : (s.image f).next? machine' signals backendOf = some (s'.image f) := by
      rw [next?_image h, hs, Option.map_some]
    rw [run_of_next?_eq_some hs, run_of_next?_eq_some himage, ih]

/-- **A phase** on the image of its world. -/
theorem phase_image (h : machine.Takes f machine') (concurrent now : Nat) (jobs : List (Job α))
    (w : ω) : phase machine' signals concurrent now jobs (f w)
      = (phase machine signals concurrent now jobs w).image f := by
  rw [phase_eq, phase_eq, h.latency, ← run_image h, ← beginMany_image]
  rfl

end Schedule

/-- **A run over a fleet** on the image of its world: the reports are equal, and the map goes with
the worlds. -/
theorem Fleet.reconcile_image (h : machine.Takes f machine') {profiles profiles' : List Profile}
    {settings : RunSettings} {projects : List ProjectSpec}
    (hprojectJobs : projectJobs profiles' projects settings.dry
      = projectJobs profiles projects settings.dry)
    (hmemberJobs : memberJobs profiles' projects settings.dry
      = memberJobs profiles projects settings.dry) (cancel : Option Nat) (w : ω) :
    (Fleet.mk profiles' machine').reconcile settings cancel projects (f w)
      = (((Fleet.mk profiles machine).reconcile settings cancel projects w).1,
          f ((Fleet.mk profiles machine).reconcile settings cancel projects w).2) := by
  simp only [reconcile, hprojectJobs, hmemberJobs, Schedule.phase_image h, Schedule.world_image,
    Schedule.now_image, Schedule.values_image]

end RegistryFleet
