import RegistryFleet.Proofs.Reconcile.InMemory

/-!
# Proofs/Reconcile/Course — the course of a phase, turn by turn

What a phase leaves behind does not tell how it got there. Its **course** does: one `Turn` for each
step of the work of a unit, with the instant of the step, the work before and after it, and the
world before and after it.

* `Schedule.next_cases` — what one step of a schedule is: a turn of the first unit in flight, or the
  end of that unit.
* `Schedule.turns_reach` — what a turn leaves of the world is reached by steps of units.
* `Schedule.instant_turns` — the turns of a schedule lie between its present and its end.
-/

namespace RegistryFleet

variable {ω α : Type}

/-- **A step of the work of a unit**, with all that is seen of it. -/
structure Turn (ω α : Type) where
  /-- When the step was made. -/
  instant : Nat
  /-- The number of the unit. -/
  unit : Nat
  /-- The number of its backend. -/
  backend : Nat
  /-- The work that was left before the step. -/
  before : Work α
  /-- The work that is left after it. -/
  after : Work α
  /-- The world before the step. -/
  origin : ω
  /-- The world after it. -/
  world : ω

namespace Schedule

/-- The turn that the next step is, unless the first unit in flight has ended. -/
def turn? (machine : Machine ω) (signals : Signals) (backendOf : Nat → Nat)
    (s : Schedule ω α) : Option (Turn ω α) :=
  match s.flights with
  | [] => none
  | f :: _ =>
    match s.works[f.unit]? with
    | none | some (.done _) => none
    | some w =>
      let (w', world) := advance machine signals (backendOf f.unit) f s.world w
      some ⟨f.due, f.unit, backendOf f.unit, w, w', s.world, world⟩

/-- **The course of a schedule to its end.** -/
def turns (machine : Machine ω) (signals : Signals) (backendOf : Nat → Nat)
    (s : Schedule ω α) : List (Turn ω α) :=
  match _h : s.next? machine signals backendOf with
  | none => []
  | some s' => (s.turn? machine signals backendOf).toList ++ turns machine signals backendOf s'
termination_by s.remaining
decreasing_by exact remaining_next machine signals backendOf s s' _h

/-- A phase whose first units have begun. -/
def begun (machine : Machine ω) (signals : Signals) (concurrent now : Nat) (jobs : List (Job α))
    (world : ω) : Schedule ω α :=
  beginMany signals (fun u => machine.latency (Job.backendOf jobs u)) (min concurrent jobs.length)
    (start jobs now world)

/-- **The course of a phase.** -/
def phaseTurns (machine : Machine ω) (signals : Signals) (concurrent now : Nat)
    (jobs : List (Job α)) (world : ω) : List (Turn ω α) :=
  (begun machine signals concurrent now jobs world).turns machine signals (Job.backendOf jobs)

variable {machine : Machine ω} {signals : Signals} {backendOf : Nat → Nat} {s s' : Schedule ω α}
  {t : Turn ω α}

theorem turns_of_next?_eq_none (h : s.next? machine signals backendOf = none) :
    s.turns machine signals backendOf = [] := by
  rw [turns]
  split
  · rfl
  · next s' hs => simp [h] at hs

theorem turns_of_next?_eq_some (h : s.next? machine signals backendOf = some s') :
    s.turns machine signals backendOf
      = (s.turn? machine signals backendOf).toList ++ s'.turns machine signals backendOf := by
  rw [turns]
  split
  · next hs => simp [h] at hs
  · next s'' hs => rw [Option.some.inj (hs.symm.trans h)]

/-! ## One step -/

/-- **A step of a schedule that is a turn.** -/
structure Taken (machine : Machine ω) (signals : Signals) (backendOf : Nat → Nat)
    (s s' : Schedule ω α) (t : Turn ω α) : Prop where
  backend : t.backend = backendOf t.unit
  work : s.works[t.unit]? = some t.before
  unfinished : ∀ a, t.before ≠ .done a
  answered : ∃ f ∈ s.flights, f.due = t.instant
    ∧ (t.after, t.world) = advance machine signals t.backend f s.world t.before
  origin : t.origin = s.world
  world : s'.world = t.world
  now : s'.now = t.instant
  works : s'.works = s.works.set t.unit t.after
  waiting : s'.waiting = s.waiting
  ended : s'.ended = s.ended
  flights : (s'.flights.map Flight.unit).Perm (s.flights.map Flight.unit)
  first : ∃ rest, s.flights.map Flight.unit = t.unit :: rest

/-- **A step of a schedule that ends a unit**, and begins another if one is left. -/
structure Closed (s s' : Schedule ω α) : Prop where
  works : s'.works = s.works
  world : s'.world = s.world
  first : ∃ u a rest, s.flights.map Flight.unit = u :: rest ∧ s.works[u]? = some (.done a)
    ∧ s'.ended = s.ended ++ [u]
    ∧ ((s.waiting = [] ∧ s'.waiting = [] ∧ s'.flights.map Flight.unit = rest)
      ∨ ∃ v, s.waiting = v :: s'.waiting ∧ (s'.flights.map Flight.unit).Perm (v :: rest))

/-- A step of an unfinished unit in flight is a turn. -/
theorem taken_of_advance {f : Flight} {rest : List Flight} {w w' : Work α} {world : ω}
    (hf : s.flights = f :: rest) (hw : s.works[f.unit]? = some w) (hdone : ∀ a, w ≠ .done a)
    (hadvance : (w', world) = advance machine signals (backendOf f.unit) f s.world w)
    (hworld : s'.world = world) (hnow : s'.now = f.due) (hworks : s'.works = s.works.set f.unit w')
    (hwaiting : s'.waiting = s.waiting) (hended : s'.ended = s.ended)
    (hflights : (s'.flights.map Flight.unit).Perm (f.unit :: rest.map Flight.unit)) :
    ∃ t, s.turn? machine signals backendOf = some t ∧ Taken machine signals backendOf s s' t := by
  have hturn : s.turn? machine signals backendOf
      = some ⟨f.due, f.unit, backendOf f.unit, w, w', s.world, world⟩ := by
    cases w with
    | done a => exact absurd rfl (hdone a)
    | _ => simp only [turn?, hf, hw, ← hadvance]
  refine ⟨_, hturn, ?_⟩
  exact {
    backend := rfl
    work := hw
    unfinished := hdone
    answered := ⟨f, hf ▸ List.mem_cons_self, rfl, hadvance⟩
    origin := rfl
    world := hworld
    now := hnow
    works := hworks
    waiting := hwaiting
    ended := hended
    flights := by rwa [hf]
    first := ⟨rest.map Flight.unit, by rw [hf]; rfl⟩ }

/-- The step that ends a unit. -/
theorem closed_beginNext {f : Flight} {rest : List Flight} {a : α} {latency : Nat → Nat}
    (hf : s.flights = f :: rest) (hw : s.works[f.unit]? = some (.done a)) :
    Closed s (beginNext signals latency
      { s with now := f.due, flights := rest, ended := s.ended ++ [f.unit] }) := by
  have hfirst : s.flights.map Flight.unit = f.unit :: rest.map Flight.unit := by
    rw [hf]
    rfl
  rcases beginNext_cases signals latency
      { s with now := f.due, flights := rest, ended := s.ended ++ [f.unit] }
    with ⟨hnone, hs⟩ | ⟨g, later, hwaiting, -, -, hs⟩
  · rw [hs]
    exact ⟨rfl, rfl, f.unit, a, _, hfirst, hw, rfl, .inl ⟨hnone, hnone, rfl⟩⟩
  · rw [hs]
    exact ⟨rfl, rfl, f.unit, a, _, hfirst, hw, rfl,
      .inr ⟨g.unit, hwaiting, (enqueue_perm g rest).map Flight.unit⟩⟩

/-- The next step is a turn, or it ends a unit. -/
theorem turn?_cases (ht : s.Tracked) (h : s.next? machine signals backendOf = some s') :
    (∃ t, s.turn? machine signals backendOf = some t ∧ Taken machine signals backendOf s s' t)
      ∨ (s.turn? machine signals backendOf = none ∧ Closed s s') := by
  obtain ⟨f, rest, hf, hcases⟩ := next?_cases h
  rcases hcases with ⟨hnone, -⟩ | ⟨a, ha, rfl⟩
    | ⟨w, w', world, hw, hdone, hadvance, hworld, hnow, hworks, hwaiting, hended, hflights⟩
  · exact absurd (List.getElem?_eq_none_iff.1 hnone) (by have := (ht.first hf).1; omega)
  · exact .inr ⟨by simp only [turn?, hf, ha], closed_beginNext hf ha⟩
  · refine .inl (taken_of_advance hf hw hdone hadvance hworld hnow hworks hwaiting hended ?_)
    rw [hflights]
    split
    · refine ((enqueue_perm _ rest).map Flight.unit).trans ?_
      rw [List.map_cons, unit_flightOf]
    · rw [List.map_cons, unit_flightOf]

/-- **What one step of a schedule is**: a turn of the first unit in flight, or its end. The course
goes on behind it. -/
theorem next_cases (ht : s.Tracked) (h : s.next? machine signals backendOf = some s') :
    (∃ t, Taken machine signals backendOf s s' t
        ∧ s.turns machine signals backendOf = t :: s'.turns machine signals backendOf)
      ∨ (Closed s s'
        ∧ s.turns machine signals backendOf = s'.turns machine signals backendOf) := by
  rw [turns_of_next?_eq_some h]
  rcases turn?_cases ht h with ⟨t, hturn, htaken⟩ | ⟨hnone, hclosed⟩
  · exact .inl ⟨t, htaken, by rw [hturn]; rfl⟩
  · exact .inr ⟨hclosed, by rw [hnone]; rfl⟩

/-- A turn is a step of its unit. -/
theorem Taken.step (h : Taken machine signals backendOf s s' t) :
    Machine.Step machine backendOf False (s.works, s.world) (s'.works, s'.world) := by
  obtain ⟨f, -, -, hadvance⟩ := h.answered
  have hstep : Work.Step (machine.serve t.backend) machine.settle False (t.before, s.world)
      (advance machine signals t.backend f s.world t.before) :=
    step_advance h.unfinished fun hf => hf.elim
  rw [← hadvance, h.backend] at hstep
  rw [h.works, h.world]
  exact .unit h.work hstep

/-! ## The whole course -/

/-- **What a turn leaves of the world** is reached by steps of units. -/
theorem turns_reach (s : Schedule ω α) (htracked : s.Tracked) :
    ∀ t ∈ s.turns machine signals backendOf, ∃ works,
      Relation.ReflTransGen (Machine.Step machine backendOf False) (s.works, s.world)
        (works, t.world) := by
  induction s using Schedule.run.induct machine signals backendOf with
  | case1 s hs =>
    intro t ht
    rw [turns_of_next?_eq_none hs] at ht
    exact absurd ht List.not_mem_nil
  | case2 s s' hs ih =>
    have hlater := ih (htracked.next hs)
    intro t ht
    rcases next_cases htracked hs with ⟨t₀, htaken, hturns⟩ | ⟨hclosed, hturns⟩
    · rw [hturns] at ht
      rcases List.mem_cons.1 ht with rfl | ht
      · exact ⟨s'.works, htaken.world ▸ .single htaken.step⟩
      · obtain ⟨works, hreach⟩ := hlater t ht
        exact ⟨works, .head htaken.step hreach⟩
    · obtain ⟨works, hreach⟩ := hlater t (hturns ▸ ht)
      rw [hclosed.works, hclosed.world] at hreach
      exact ⟨works, hreach⟩

/-- **The turns of a schedule** lie between its present and its end. -/
theorem instant_turns (s : Schedule ω α) (htracked : s.Tracked)
    (htimely : Timely signals s.now s.flights) :
    ∀ t ∈ s.turns machine signals backendOf,
      s.now ≤ t.instant ∧ t.instant ≤ (s.run machine signals backendOf).now := by
  induction s using Schedule.run.induct machine signals backendOf with
  | case1 s hs =>
    intro t ht
    rw [turns_of_next?_eq_none hs] at ht
    exact absurd ht List.not_mem_nil
  | case2 s s' hs ih =>
    obtain ⟨hnow, htimely'⟩ := htimely.next hs
    have hlater := ih (htracked.next hs) htimely'
    intro t ht
    rw [run_of_next?_eq_some hs]
    rcases next_cases htracked hs with ⟨t₀, htaken, hturns⟩ | ⟨-, hturns⟩
    · rw [hturns] at ht
      rcases List.mem_cons.1 ht with rfl | ht
      · rw [htaken.now] at hnow
        refine ⟨hnow, ?_⟩
        have hend := now_le_run machine backendOf s' htimely'
        rwa [htaken.now] at hend
      · exact ⟨Nat.le_trans hnow (hlater t ht).1, (hlater t ht).2⟩
    · rw [hturns] at ht
      exact ⟨Nat.le_trans hnow (hlater t ht).1, (hlater t ht).2⟩

variable {concurrent now : Nat} {jobs : List (Job α)} {world : ω}

/-- To begin the first units of a phase changes neither works nor world. -/
theorem keeps_begun : (begun machine signals concurrent now jobs world).works = jobs.map Job.work
    ∧ (begun machine signals concurrent now jobs world).world = world := by
  obtain ⟨hworks, hworld, -⟩ := beginMany_keeps signals
    (fun u => machine.latency (Job.backendOf jobs u)) (min concurrent jobs.length)
    (start jobs now world)
  exact ⟨hworks, hworld⟩

/-- A phase keeps track of its units and of time from its beginning on. -/
theorem wellBegun : (begun machine signals concurrent now jobs world).Tracked
    ∧ Timely signals (begun machine signals concurrent now jobs world).now
        (begun machine signals concurrent now jobs world).flights := by
  obtain ⟨-, -, htimely, htracked⟩ := beginMany_keeps signals
    (fun u => machine.latency (Job.backendOf jobs u)) (min concurrent jobs.length)
    (start jobs now world)
  exact ⟨htracked (tracked_start jobs now world), htimely (.nil signals now)⟩

/-- What a turn of a phase leaves of the world is reached by steps of its units. -/
theorem phaseTurns_reach (ht : t ∈ phaseTurns machine signals concurrent now jobs world) :
    ∃ works, Relation.ReflTransGen (Machine.Step machine (Job.backendOf jobs) False)
      (jobs.map Job.work, world) (works, t.world) := by
  have hreach := turns_reach _ wellBegun.1 t ht
  rwa [keeps_begun.1, keeps_begun.2] at hreach

end Schedule

/-- **What is true of the world at the start of a phase of secure units** is true at each of its
turns and at its end. -/
theorem Division.phase_sound {V : Type} {d : Division ω V} {Q : Nat → α → V → Prop}
    {jobs : List (Job α)} {signals : Signals} {concurrent now : Nat} {world : ω}
    (hbackend : d.backendOf = Job.backendOf jobs) (hunits : d.units = jobs.length)
    (hsound : d.sound world) (heach : ∀ u job, jobs[u]? = some job →
      d.Secure u False (Q u) job.work (d.view u world)) :
    (∀ t ∈ Schedule.phaseTurns d.machine signals concurrent now jobs world, d.sound t.world)
      ∧ d.sound (Schedule.phase d.machine signals concurrent now jobs world).world := by
  have hstart : d.Secured False Q (jobs.map Job.work) world := secured_start hunits hsound heach
  refine ⟨fun t ht => ?_, ?_⟩
  · obtain ⟨works, hsteps⟩ := Schedule.phaseTurns_reach ht
    have hreached : d.Secured False Q works t.world := hstart.steps (hbackend ▸ hsteps)
    exact hreached.sound
  · exact (phase_secured d False Q hbackend hunits hsound False.elim heach).sound

/-! ## A run -/

namespace World

section

variable (w : World) (directory : Option CredentialDirectory) (settings : RunSettings)
  (cancel : Option Nat) (projects : List ProjectSpec)

/-- The course of the first phase of a run. -/
def projectTurns : List (Turn World UnitResult) :=
  Schedule.phaseTurns (w.machine directory) ⟨settings.deadline, cancel⟩ settings.concurrent 0
    (projectJobs (w.backends.map Backend.profile) projects settings.dry) w

/-- The course of the second phase of a run. -/
def memberTurns : List (Turn World UnitResult) :=
  Schedule.phaseTurns (w.machine directory) ⟨settings.deadline, cancel⟩ settings.concurrent
    (w.projectPhase directory settings cancel projects).now
    (memberJobs (w.backends.map Backend.profile) projects settings.dry)
    (w.projectPhase directory settings cancel projects).world

/-- **The course of a run.** -/
def turns : List (Turn World UnitResult) :=
  w.projectTurns directory settings cancel projects
    ++ w.memberTurns directory settings cancel projects

end

end World

end RegistryFleet
