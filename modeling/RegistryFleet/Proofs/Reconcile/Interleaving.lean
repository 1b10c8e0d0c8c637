import RegistryFleet.Reconcile.Schedule
import Mathlib.Data.Set.List
import Mathlib.Logic.Relation
import Mathlib.Order.Filter.AtTopBot.Basic

/-!
# Proofs/Reconcile/Interleaving — a phase interleaves the steps of its units

A schedule decides whose turn it is by instants. What its units do to the world is already said by
the coarser `Machine.Step`: one unit, whichever, makes a step of its work. Three facts:

* `Schedule.run_reaches` — a schedule to its end is a sequence of such steps, and when no signal has
  come by its end, none of them sees one.
* `Schedule.phase_ends` — a phase that may hold a unit in flight leaves none of its units undone,
  and collects the value of each once.
* `Schedule.phase_late` — a phase takes the same course whatever the deadline, if only it is late
  enough.
-/

namespace RegistryFleet

variable {ω α : Type}

/-! ## Steps -/

/-- **A step of a unit's work** — `calm` rules signals out. -/
inductive Work.Step (serve : Calls.Server ω) (settle : Effect → ω → Except Error Unit × ω)
    (calm : Prop) : Work α × ω → Work α × ω → Prop
  | check (next : Option Interruption → Work α) (world : ω) (i : Option Interruption)
      (h : calm → i = none) : Step serve settle calm (.check next, world) (next i, world)
  | call (c : Call) (next : c.Answer → Work α) (world : ω) :
      Step serve settle calm (.call c next, world)
        (next (serve c world).1, (serve c world).2)
  | observe (c : Call) (next : Except Interruption c.Answer → Work α) (world : ω) :
      Step serve settle calm (.observe c next, world)
        (next (.ok (serve c world).1), (serve c world).2)
  | abandon (c : Call) (next : Except Interruption c.Answer → Work α) (world : ω)
      (i : Interruption) (h : ¬ calm) :
      Step serve settle calm (.observe c next, world) (next (.error i), world)
  | settle (e : Effect) (next : Except Error Unit → Work α) (world : ω) :
      Step serve settle calm (.settle e next, world)
        (next (settle e world).1, (settle e world).2)

/-- **A step of one of several units**, whichever. -/
inductive Machine.Step (machine : Machine ω) (backendOf : Nat → Nat) (calm : Prop) :
    List (Work α) × ω → List (Work α) × ω → Prop
  | unit {works : List (Work α)} {world world' : ω} {u : Nat} {w w' : Work α}
      (hu : works[u]? = some w)
      (h : Work.Step (machine.serve (backendOf u)) machine.settle calm (w, world) (w', world')) :
      Step machine backendOf calm (works, world) (works.set u w', world')

/-- The backend of a unit by its number. -/
def Job.backendOf (jobs : List (Job α)) (u : Nat) : Nat := (jobs[u]?).elim 0 Job.backend

theorem Job.backendOf_eq {jobs : List (Job α)} {u : Nat} {job : Job α} (h : jobs[u]? = some job) :
    Job.backendOf jobs u = job.backend := by
  rw [backendOf, h, Option.elim_some]

/-! ## Signals -/

namespace Signals

/-- A signal that has come stays. -/
theorem at?_eq_none_of_le {s : Signals} {a b : Nat} (h : s.at? b = none) (hab : a ≤ b) :
    s.at? a = none := by
  obtain ⟨deadline, cancel⟩ := s
  cases cancel with
  | none =>
    simp only [at?, Option.any_none, Bool.false_eq_true, if_false] at h ⊢
    split at h
    · simp at h
    · rw [if_neg (by omega)]
  | some t =>
    simp only [at?, Option.any_some, decide_eq_true_eq] at h ⊢
    split at h
    · simp at h
    · split at h
      · simp at h
      · rw [if_neg (by omega), if_neg (by omega)]

/-- A deadline that has passed is a signal that has come. -/
theorem at?_ne_none {s : Signals} {t : Nat} (ht : s.deadline ≤ t) : s.at? t ≠ none := by
  unfold at?
  split
  · simp
  · simp

/-- A wait that a signal cuts short ends no earlier than it began, at an instant where a signal has
come. -/
theorem of_before? {s : Signals} {now due t : Nat} {i : Interruption}
    (h : s.before? now due = some (t, i)) : now ≤ t ∧ s.at? t ≠ none := by
  obtain ⟨deadline, cancel⟩ := s
  have hdeadline : ∀ {t i}, (if deadline < due then some (max now deadline, Interruption.deadline)
      else none) = some (t, i) → now ≤ t ∧ deadline ≤ t := by
    intro t i h
    split at h
    · obtain ⟨rfl, -⟩ := Prod.mk.inj (Option.some.inj h)
      omega
    · simp at h
  unfold before? at h
  generalize (if deadline < due then some (max now deadline, Interruption.deadline) else none)
    = late at h hdeadline
  cases cancel with
  | none =>
    obtain ⟨hnow, ht⟩ := hdeadline h
    exact ⟨hnow, at?_ne_none ht⟩
  | some c =>
    simp only at h
    split at h
    · obtain ⟨rfl, -⟩ := Prod.mk.inj (Option.some.inj h)
      refine ⟨by omega, ?_⟩
      simp [at?]
    · obtain ⟨hnow, ht⟩ := hdeadline h
      exact ⟨hnow, at?_ne_none ht⟩

end Signals

namespace Schedule

/-! ## The queue of flights -/

theorem enqueue_perm (f : Flight) : ∀ fs : List Flight, (enqueue f fs).Perm (f :: fs)
  | [] => .refl _
  | g :: rest => by
      unfold enqueue
      split
      · exact ((enqueue_perm f rest).cons g).trans (.swap f g rest)
      · exact .refl _

/-- The queue stays in the order of its instants. -/
theorem pairwise_enqueue (f : Flight) : ∀ {fs : List Flight},
    fs.Pairwise (fun a b => a.due ≤ b.due) →
      (enqueue f fs).Pairwise (fun a b => a.due ≤ b.due)
  | [], _ => List.pairwise_singleton _ _
  | g :: rest, h => by
      obtain ⟨hg, hrest⟩ := List.pairwise_cons.1 h
      unfold enqueue
      split
      · next hle =>
        refine List.pairwise_cons.2 ⟨fun b hb => ?_, pairwise_enqueue f hrest⟩
        rcases List.mem_cons.1 ((enqueue_perm f rest).mem_iff.1 hb) with rfl | hb
        · exact hle
        · exact hg b hb
      · next hlt =>
        refine List.pairwise_cons.2 ⟨fun b hb => ?_, h⟩
        rcases List.mem_cons.1 hb with rfl | hb
        · omega
        · have := hg b hb
          omega

theorem unit_flightOf (signals : Signals) (latency now u : Nat) (w : Work α) :
    (flightOf signals latency now u w).unit = u := by
  unfold flightOf
  split
  · rfl
  · split
    · rfl
    · split <;> rfl
  · rfl

/-- A unit waits from now on, and a cut wait ends at a signal. -/
theorem flightOf_spec (signals : Signals) (latency now u : Nat) (w : Work α) :
    now ≤ (flightOf signals latency now u w).due
      ∧ ((flightOf signals latency now u w).cut ≠ none →
          signals.at? (flightOf signals latency now u w).due ≠ none) := by
  unfold flightOf
  split
  · exact ⟨Nat.le_add_right _ _, fun h => absurd rfl h⟩
  · split
    · exact ⟨Nat.le_refl _, fun h => absurd rfl h⟩
    · split
      · next t i h =>
        obtain ⟨hnow, hat⟩ := Signals.of_before? h
        exact ⟨hnow, fun _ => hat⟩
      · exact ⟨Nat.le_add_right _ _, fun h => absurd rfl h⟩
  · exact ⟨Nat.le_refl _, fun h => absurd rfl h⟩

/-- Work that need not wait goes on at once. -/
theorem due_flightOf_of_not_waits {signals : Signals} {latency now u : Nat} {w : Work α}
    (h : waits latency w = false) : (flightOf signals latency now u w).due = now := by
  cases w with
  | call c next =>
    have h0 : latency = 0 := by simpa [waits] using h
    simp [flightOf, h0]
  | observe c next =>
    have h0 : latency = 0 := by simpa [waits] using h
    simp [flightOf, h0]
  | _ => rfl

/-! ## What a step of the schedule is -/

variable {machine : Machine ω} {signals : Signals} {backendOf : Nat → Nat} {calm : Prop}

/-- The first unit in flight is none of the phase, has ended, or makes a step. -/
theorem next?_cases {s s' : Schedule ω α} (h : s.next? machine signals backendOf = some s') :
    ∃ f rest, s.flights = f :: rest ∧
      ((s.works[f.unit]? = none ∧ s' = { s with flights := rest })
        ∨ (∃ a, s.works[f.unit]? = some (.done a)
            ∧ s' = beginNext signals (fun u => machine.latency (backendOf u))
              { s with now := f.due, flights := rest, ended := s.ended ++ [f.unit] })
        ∨ ∃ w w' world, s.works[f.unit]? = some w ∧ (∀ a, w ≠ .done a)
            ∧ (w', world) = advance machine signals (backendOf f.unit) f s.world w
            ∧ s'.world = world ∧ s'.now = f.due ∧ s'.works = s.works.set f.unit w'
            ∧ s'.waiting = s.waiting ∧ s'.ended = s.ended
            ∧ s'.flights
              = if waits (machine.latency (backendOf f.unit)) w' then
                  enqueue (flightOf signals (machine.latency (backendOf f.unit)) f.due f.unit w')
                    rest
                else flightOf signals (machine.latency (backendOf f.unit)) f.due f.unit w' :: rest)
      := by
  unfold next? at h
  split at h
  · simp at h
  · next f rest hf =>
    refine ⟨f, rest, hf, ?_⟩
    split at h
    · next hw => exact .inl ⟨hw, (Option.some.inj h).symm⟩
    · next a hw => exact .inr (.inl ⟨a, hw, (Option.some.inj h).symm⟩)
    · next w hdone hw =>
      obtain rfl := Option.some.inj h
      exact .inr (.inr ⟨w, _, _, hw, hdone, rfl, rfl, rfl, rfl, rfl, rfl, rfl⟩)

theorem flights_eq_nil_of_next? {s : Schedule ω α}
    (h : s.next? machine signals backendOf = none) : s.flights = [] := by
  unfold next? at h
  split at h
  · assumption
  · split at h <;> simp at h

/-- **An advance is a step of the work** — one that sees no signal, where none has come. -/
theorem step_advance {backend : Nat} {f : Flight} {world : ω} {w : Work α}
    (hw : ∀ a, w ≠ .done a) (hcalm : calm → f.cut = none ∧ signals.at? f.due = none) :
    Work.Step (machine.serve backend) machine.settle calm (w, world)
      (advance machine signals backend f world w) := by
  cases w with
  | done a => exact absurd rfl (hw a)
  | check next => exact .check next world _ fun h => (hcalm h).2
  | call c next => exact .call c next world
  | observe c next =>
    cases hf : f.cut with
    | some i =>
      simp only [advance, hf]
      exact .abandon c next world i fun h => by simp [(hcalm h).1] at hf
    | none =>
      simp only [advance, hf]
      exact .observe c next world
  | settle e next => exact .settle e next world

/-- The next unit begins to wait, if there is one. -/
theorem beginNext_cases (signals : Signals) (latency : Nat → Nat) (s : Schedule ω α) :
    (s.waiting = [] ∧ beginNext signals latency s = s)
      ∨ ∃ f rest, s.waiting = f.unit :: rest ∧ s.now ≤ f.due
          ∧ (f.cut ≠ none → signals.at? f.due ≠ none)
          ∧ beginNext signals latency s
            = { s with flights := enqueue f s.flights, waiting := rest } := by
  unfold beginNext
  split
  · next hw => exact .inl ⟨hw, rfl⟩
  · next u rest hw =>
    cases hu : s.works[u]? with
    | none => exact .inr ⟨⟨s.now, u, none⟩, rest, hw, Nat.le_refl _, fun h => absurd rfl h, rfl⟩
    | some w =>
      obtain ⟨hnow, hcut⟩ := flightOf_spec signals (latency u) s.now u w
      exact .inr ⟨_, rest, by rw [unit_flightOf]; exact hw, hnow, hcut, rfl⟩

/-! ## The schedule keeps time -/

/-- **The units in flight keep time** — none waits for what lies behind, the first waits the
shortest, and a cut wait ends at a signal. -/
structure Timely (signals : Signals) (now : Nat) (flights : List Flight) : Prop where
  sorted : flights.Pairwise fun a b => a.due ≤ b.due
  ahead : ∀ f ∈ flights, now ≤ f.due
  cut : ∀ f ∈ flights, f.cut ≠ none → signals.at? f.due ≠ none

namespace Timely

theorem nil (signals : Signals) (now : Nat) : Timely signals now [] :=
  ⟨.nil, fun _ h => absurd h List.not_mem_nil, fun _ h => absurd h List.not_mem_nil⟩

variable {now : Nat} {flights : List Flight}

theorem enqueue (h : Timely signals now flights) {f : Flight} (hnow : now ≤ f.due)
    (hcut : f.cut ≠ none → signals.at? f.due ≠ none) :
    Timely signals now (enqueue f flights) where
  sorted := pairwise_enqueue f h.sorted
  ahead g hg := by
    rcases List.mem_cons.1 ((enqueue_perm f flights).mem_iff.1 hg) with rfl | hg
    · exact hnow
    · exact h.ahead g hg
  cut g hg := by
    rcases List.mem_cons.1 ((enqueue_perm f flights).mem_iff.1 hg) with rfl | hg
    · exact hcut
    · exact h.cut g hg

theorem beginNext {s : Schedule ω α} (h : Timely signals s.now s.flights) (latency : Nat → Nat) :
    Timely signals s.now (beginNext signals latency s).flights := by
  rcases beginNext_cases signals latency s with ⟨-, hs⟩ | ⟨f, rest, -, hnow, hcut, hs⟩
  · rwa [hs]
  · rw [hs]
    exact h.enqueue hnow hcut

/-- Behind the first unit in flight, at the end of its wait. -/
theorem tail {f : Flight} (h : Timely signals now (f :: flights)) :
    Timely signals f.due flights where
  sorted := (List.pairwise_cons.1 h.sorted).2
  ahead := (List.pairwise_cons.1 h.sorted).1
  cut g hg := h.cut g (List.mem_cons_of_mem f hg)

/-- The first unit goes on at once. -/
theorem cons (h : Timely signals now flights) {f : Flight} (hdue : f.due = now)
    (hcut : f.cut ≠ none → signals.at? f.due ≠ none) : Timely signals now (f :: flights) where
  sorted := List.pairwise_cons.2 ⟨fun g hg => hdue ▸ h.ahead g hg, h.sorted⟩
  ahead g hg := by
    rcases List.mem_cons.1 hg with rfl | hg
    · omega
    · exact h.ahead g hg
  cut g hg := by
    rcases List.mem_cons.1 hg with rfl | hg
    · exact hcut
    · exact h.cut g hg

end Timely

theorem works_beginNext (signals : Signals) (latency : Nat → Nat) (s : Schedule ω α) :
    (beginNext signals latency s).works = s.works := by
  rcases beginNext_cases signals latency s with ⟨-, hs⟩ | ⟨f, rest, -, -, -, hs⟩ <;> rw [hs]

theorem world_beginNext (signals : Signals) (latency : Nat → Nat) (s : Schedule ω α) :
    (beginNext signals latency s).world = s.world := by
  rcases beginNext_cases signals latency s with ⟨-, hs⟩ | ⟨f, rest, -, -, -, hs⟩ <;> rw [hs]

theorem now_beginNext (signals : Signals) (latency : Nat → Nat) (s : Schedule ω α) :
    (beginNext signals latency s).now = s.now := by
  rcases beginNext_cases signals latency s with ⟨-, hs⟩ | ⟨f, rest, -, -, -, hs⟩ <;> rw [hs]

/-- **A step keeps time**, and time does not run backwards. -/
theorem Timely.next {s s' : Schedule ω α} (h : Timely signals s.now s.flights)
    (hs : s.next? machine signals backendOf = some s') :
    s.now ≤ s'.now ∧ Timely signals s'.now s'.flights := by
  obtain ⟨f, rest, hf, hcases⟩ := next?_cases hs
  rw [hf] at h
  have hnow : s.now ≤ f.due := h.ahead f List.mem_cons_self
  rcases hcases with ⟨-, rfl⟩ | ⟨a, -, rfl⟩ | ⟨w, w', world, -, -, -, -, hdue, -, -, -, hflights⟩
  · exact ⟨Nat.le_refl _, (List.pairwise_cons.1 h.sorted).2,
      fun g hg => h.ahead g (List.mem_cons_of_mem f hg), h.tail.cut⟩
  · rw [now_beginNext]
    exact ⟨hnow, Timely.beginNext (s := { s with now := f.due, flights := rest, ended := _ })
      h.tail _⟩
  · obtain ⟨hlater, hcut⟩ :=
      flightOf_spec signals (machine.latency (backendOf f.unit)) f.due f.unit w'
    rw [hdue, hflights]
    refine ⟨hnow, ?_⟩
    split
    · exact h.tail.enqueue hlater hcut
    · next hwaits =>
      exact h.tail.cons (due_flightOf_of_not_waits (by simpa using hwaits)) hcut

/-! ## The schedule keeps track of its units -/

/-- **Every unit is in one place** — ended, in flight or not yet begun; what has ended is done. -/
structure Tracked (s : Schedule ω α) : Prop where
  units : (s.ended ++ (s.flights.map Flight.unit ++ s.waiting)).Perm (List.range s.works.length)
  done : ∀ u ∈ s.ended, ∃ a, s.works[u]? = some (.done a)

namespace Tracked

variable {s s' : Schedule ω α}

theorem beginNext (h : s.Tracked) (latency : Nat → Nat) :
    (beginNext signals latency s).Tracked := by
  rcases beginNext_cases signals latency s with ⟨-, hs⟩ | ⟨f, rest, hw, -, -, hs⟩
  · rwa [hs]
  · rw [hs]
    refine ⟨?_, h.done⟩
    have hperm : ((enqueue f s.flights).map Flight.unit ++ rest).Perm
        (s.flights.map Flight.unit ++ s.waiting) := by
      rw [hw]
      exact (((enqueue_perm f s.flights).map Flight.unit).append_right rest).trans
        List.perm_middle.symm
    exact (hperm.append_left _).trans h.units

/-- A unit in flight is a unit of the phase, and has not ended. -/
theorem first (h : s.Tracked) {f : Flight} {rest : List Flight} (hf : s.flights = f :: rest) :
    f.unit < s.works.length ∧ f.unit ∉ s.ended := by
  have hunits := h.units
  rw [hf] at hunits
  have hnodup := hunits.nodup_iff.2 List.nodup_range
  refine ⟨List.mem_range.1 (hunits.subset (by simp)), fun hmem => ?_⟩
  exact (List.nodup_append.1 hnodup).2.2 f.unit hmem f.unit (by simp) rfl

/-- **A step keeps track.** -/
theorem next (h : s.Tracked) (hs : s.next? machine signals backendOf = some s') :
    s'.Tracked := by
  obtain ⟨f, rest, hf, hcases⟩ := next?_cases hs
  obtain ⟨hunit, hended⟩ := h.first hf
  have hunits := h.units
  rw [hf] at hunits
  rcases hcases with ⟨hnone, -⟩ | ⟨a, ha, rfl⟩
    | ⟨w, w', world, -, -, -, -, -, hworks, hwaiting, hended', hflights⟩
  · exact absurd (List.getElem?_eq_none_iff.1 hnone) (by omega)
  · refine Tracked.beginNext ⟨?_, fun u hu => ?_⟩ _
    · simpa using hunits
    · rcases List.mem_append.1 hu with hu | hu
      · exact h.done u hu
      · obtain rfl := List.mem_singleton.1 hu
        exact ⟨a, ha⟩
  · refine ⟨?_, fun u hu => ?_⟩
    · have hperm : (s'.flights.map Flight.unit).Perm (f.unit :: rest.map Flight.unit) := by
        rw [hflights]
        split
        · refine ((enqueue_perm _ rest).map Flight.unit).trans ?_
          rw [List.map_cons, unit_flightOf]
        · simp [unit_flightOf]
      rw [hworks, hwaiting, hended', List.length_set]
      exact ((hperm.append_right _).append_left _).trans hunits
    · rw [hended'] at hu
      obtain ⟨a, ha⟩ := h.done u hu
      refine ⟨a, ?_⟩
      rw [hworks, List.getElem?_set_ne (fun he : f.unit = u => hended (he ▸ hu))]
      exact ha

end Tracked

/-- Units wait only while others are in flight. -/
def Busy (s : Schedule ω α) : Prop := s.flights = [] → s.waiting = []

theorem enqueue_ne_nil (f : Flight) (fs : List Flight) : enqueue f fs ≠ [] := fun h => by
  have := length_enqueue f fs
  simp [h] at this

theorem busy_beginNext (latency : Nat → Nat) (s : Schedule ω α) :
    (beginNext signals latency s).Busy := by
  rcases beginNext_cases signals latency s with ⟨hw, hs⟩ | ⟨f, rest, -, -, -, hs⟩
  · rw [hs]
    exact fun _ => hw
  · rw [hs]
    exact fun h => absurd h (enqueue_ne_nil f s.flights)

theorem Busy.next {s s' : Schedule ω α} (ht : s.Tracked)
    (hs : s.next? machine signals backendOf = some s') : s'.Busy := by
  obtain ⟨f, rest, hf, hcases⟩ := next?_cases hs
  rcases hcases with ⟨hnone, -⟩ | ⟨a, -, rfl⟩ | ⟨w, w', world, -, -, -, -, -, -, -, -, hflights⟩
  · exact absurd (List.getElem?_eq_none_iff.1 hnone) (by have := (ht.first hf).1; omega)
  · exact busy_beginNext _ _
  · intro hnil
    rw [hflights] at hnil
    split at hnil
    · exact absurd hnil (enqueue_ne_nil _ rest)
    · simp at hnil

/-! ## A whole run -/

theorem run_of_next?_eq_none {s : Schedule ω α} (h : s.next? machine signals backendOf = none) :
    s.run machine signals backendOf = s := by
  rw [run]
  split
  · rfl
  · next s' hs => simp [h] at hs

theorem run_of_next?_eq_some {s s' : Schedule ω α}
    (h : s.next? machine signals backendOf = some s') :
    s.run machine signals backendOf = s'.run machine signals backendOf := by
  rw [run]
  split
  · next hs => simp [h] at hs
  · next s'' hs => rw [Option.some.inj (hs.symm.trans h)]

/-- Time does not run backwards. -/
theorem now_le_run (machine : Machine ω) (backendOf : Nat → Nat) (s : Schedule ω α)
    (h : Timely signals s.now s.flights) :
    s.now ≤ (s.run machine signals backendOf).now := by
  induction s using Schedule.run.induct machine signals backendOf with
  | case1 s hs => exact Nat.le_of_eq (by rw [run_of_next?_eq_none hs])
  | case2 s s' hs ih =>
    rw [run_of_next?_eq_some hs]
    exact Nat.le_trans (h.next hs).1 (ih (h.next hs).2)

/-- **A schedule to its end is a sequence of steps of its units** — and when no signal has come by
then, none of the steps sees one. -/
theorem run_reaches (s : Schedule ω α) (h : Timely signals s.now s.flights)
    (hcalm : calm → signals.at? (s.run machine signals backendOf).now = none) :
    Relation.ReflTransGen (Machine.Step machine backendOf calm) (s.works, s.world)
      ((s.run machine signals backendOf).works, (s.run machine signals backendOf).world) := by
  induction s using Schedule.run.induct machine signals backendOf with
  | case1 s hs =>
    rw [run_of_next?_eq_none hs]
  | case2 s s' hs ih =>
    rw [run_of_next?_eq_some hs] at hcalm ⊢
    have htimely := (h.next hs).2
    have hrest := ih htimely hcalm
    obtain ⟨f, rest, hf, hcases⟩ := next?_cases hs
    rcases hcases with ⟨-, rfl⟩ | ⟨a, -, rfl⟩
      | ⟨w, w', world, hw, hdone, hadvance, hworld, hdue, hworks, -⟩
    · exact hrest
    · rw [works_beginNext, world_beginNext] at hrest
      exact hrest
    · refine .head ?_ hrest
      rw [hworld, hworks]
      refine .unit hw (hadvance ▸ step_advance hdone fun hc => ?_)
      have hat : signals.at? f.due = none :=
        Signals.at?_eq_none_of_le (hcalm hc) (hdue ▸ now_le_run machine backendOf s' htimely)
      refine ⟨Decidable.byContradiction fun hcut => ?_, hat⟩
      exact h.cut f (hf ▸ List.mem_cons_self) hcut hat

/-- At its end every unit of a schedule has ended. -/
theorem run_ends (machine : Machine ω) (signals : Signals) (backendOf : Nat → Nat)
    (s : Schedule ω α) (h : s.Tracked) (hbusy : s.Busy) :
    (s.run machine signals backendOf).Tracked
      ∧ (s.run machine signals backendOf).flights = []
      ∧ (s.run machine signals backendOf).waiting = [] := by
  induction s using Schedule.run.induct machine signals backendOf with
  | case1 s hs =>
    rw [run_of_next?_eq_none hs]
    exact ⟨h, flights_eq_nil_of_next? hs, hbusy (flights_eq_nil_of_next? hs)⟩
  | case2 s s' hs ih =>
    rw [run_of_next?_eq_some hs]
    exact ih (h.next hs) (Busy.next h hs)

/-- A list read place by place. -/
theorem map_getElem?_range {β : Type} (xs : List β) :
    (List.range xs.length).map (fun i => xs[i]?) = xs.map some :=
  List.ext_getElem (by simp) fun i _ hi => by simp at hi; simp [hi]

/-- What a schedule collects when all of its units have ended. -/
theorem values_of_ended {s : Schedule ω α} (h : s.Tracked) (hf : s.flights = [])
    (hw : s.waiting = []) : ∃ vals, s.works = vals.map Work.done ∧ s.values.Perm vals := by
  have hunits : s.ended.Perm (List.range s.works.length) := by
    simpa [hf, hw] using h.units
  obtain ⟨vals, hvals⟩ : s.works ∈ Set.range (List.map Work.done) := by
    rw [Set.range_list_map]
    intro w hmem
    obtain ⟨u, hu, rfl⟩ := List.getElem_of_mem hmem
    obtain ⟨a, ha⟩ := h.done u (hunits.mem_iff.2 (List.mem_range.2 hu))
    exact ⟨a, by simpa [hu] using ha.symm⟩
  refine ⟨vals, hvals.symm, (hunits.filterMap _).trans (.of_eq ?_)⟩
  have hvalue : ∀ u, (s.works[u]?).bind Work.value? = vals[u]? := fun u => by
    rw [← hvals, List.getElem?_map]
    cases vals[u]? <;> rfl
  have hall : (List.range s.works.length).map (fun u => vals[u]?) = vals.map some := by
    rw [← hvals, List.length_map, map_getElem?_range]
  calc (List.range s.works.length).filterMap (fun u => (s.works[u]?).bind Work.value?)
      = ((List.range s.works.length).map fun u => vals[u]?).filterMap id := by
        simp only [hvalue, List.filterMap_map, Function.id_comp]
    _ = vals := by
        rw [hall, List.filterMap_map]
        exact List.filterMap_some

/-! ## A whole phase -/

/-- A phase before its first unit begins. -/
def start (jobs : List (Job α)) (now : Nat) (world : ω) : Schedule ω α :=
  ⟨world, now, jobs.map Job.work, [], List.range jobs.length, []⟩

theorem tracked_start (jobs : List (Job α)) (now : Nat) (world : ω) :
    (start jobs now world).Tracked where
  units := by simp [start]
  done u hu := absurd hu List.not_mem_nil

/-- To begin units does nothing else. -/
theorem beginMany_keeps (signals : Signals) (latency : Nat → Nat) :
    ∀ (count : Nat) (s : Schedule ω α),
    (beginMany signals latency count s).works = s.works
      ∧ (beginMany signals latency count s).world = s.world
      ∧ (Timely signals s.now s.flights →
          Timely signals (beginMany signals latency count s).now
            (beginMany signals latency count s).flights)
      ∧ (s.Tracked → (beginMany signals latency count s).Tracked)
  | 0, _ => ⟨rfl, rfl, id, id⟩
  | count + 1, s => by
      obtain ⟨hworks, hworld, htimely, htracked⟩ :=
        beginMany_keeps signals latency count (beginNext signals latency s)
      rw [works_beginNext] at hworks
      rw [world_beginNext] at hworld
      rw [now_beginNext] at htimely
      exact ⟨hworks, hworld, fun h => htimely (h.beginNext latency),
        fun h => htracked (h.beginNext latency)⟩

theorem busy_beginMany (latency : Nat → Nat) : ∀ (count : Nat) (s : Schedule ω α), s.Busy →
    (beginMany signals latency count s).Busy
  | 0, _, h => h
  | count + 1, s, _ => busy_beginMany latency count _ (busy_beginNext latency s)

variable {concurrent now : Nat} {jobs : List (Job α)} {world : ω}

/-- A phase that may hold a unit in flight begins with one, if it has any. -/
theorem busy_start (latency : Nat → Nat) (now : Nat) (world : ω) (hc : 0 < concurrent) :
    (beginMany signals latency (min concurrent jobs.length) (start jobs now world)).Busy := by
  cases hcount : min concurrent jobs.length with
  | zero =>
    have hjobs : jobs = [] := List.length_eq_zero_iff.1 (by omega)
    exact fun _ => by rw [hjobs]; rfl
  | succ count => exact busy_beginMany _ count _ (busy_beginNext _ _)

theorem phase_eq : phase machine signals concurrent now jobs world
    = (beginMany signals (fun u => machine.latency (Job.backendOf jobs u))
        (min concurrent jobs.length) (start jobs now world)).run machine signals
          (Job.backendOf jobs) := rfl

/-- **A phase is a sequence of steps of its units** — and when no signal has come by its end, none
of the steps sees one. -/
theorem phase_reaches
    (hcalm : calm → signals.at? (phase machine signals concurrent now jobs world).now = none) :
    Relation.ReflTransGen (Machine.Step machine (Job.backendOf jobs) calm)
      (jobs.map Job.work, world)
      ((phase machine signals concurrent now jobs world).works,
        (phase machine signals concurrent now jobs world).world) := by
  rw [phase_eq] at hcalm ⊢
  obtain ⟨hworks, hworld, htimely, -⟩ := beginMany_keeps signals
    (fun u => machine.latency (Job.backendOf jobs u)) (min concurrent jobs.length)
    (start jobs now world)
  have hreaches := run_reaches _ (htimely (.nil signals now)) hcalm
  rw [hworks, hworld] at hreaches
  exact hreaches

/-- **A phase ends with each of its units** — and collects the value of each once. -/
theorem phase_ends (machine : Machine ω) (signals : Signals) (now : Nat) (jobs : List (Job α))
    (world : ω) (hc : 0 < concurrent) :
    ∃ vals, (phase machine signals concurrent now jobs world).works = vals.map Work.done
      ∧ (phase machine signals concurrent now jobs world).values.Perm vals := by
  rw [phase_eq]
  obtain ⟨-, -, -, htracked⟩ := beginMany_keeps signals
    (fun u => machine.latency (Job.backendOf jobs u)) (min concurrent jobs.length)
    (start jobs now world)
  have hbusy : (beginMany signals (fun u => machine.latency (Job.backendOf jobs u))
      (min concurrent jobs.length) (start jobs now world)).Busy := busy_start _ now world hc
  obtain ⟨htracked, hflights, hwaiting⟩ :=
    run_ends machine signals (Job.backendOf jobs) _ (htracked (tracked_start jobs now world)) hbusy
  exact values_of_ended htracked hflights hwaiting

theorem now_beginMany (latency : Nat → Nat) : ∀ (count : Nat) (s : Schedule ω α),
    (beginMany signals latency count s).now = s.now
  | 0, _ => rfl
  | count + 1, s => (now_beginMany latency count _).trans (now_beginNext signals latency s)

/-- A phase does not end before it begins. -/
theorem now_le_phase : now ≤ (phase machine signals concurrent now jobs world).now := by
  rw [phase_eq]
  obtain ⟨-, -, htimely, -⟩ := beginMany_keeps signals
    (fun u => machine.latency (Job.backendOf jobs u)) (min concurrent jobs.length)
    (start jobs now world)
  have hrun := now_le_run machine (Job.backendOf jobs) _ (htimely (.nil signals now))
  rw [now_beginMany] at hrun
  exact hrun

/-! ## How long a phase takes -/

/-- Where every call is answered at once, a unit waits for nothing. -/
theorem due_flightOf_zero (signals : Signals) (now u : Nat) (w : Work α) :
    (flightOf signals 0 now u w).due = now := by
  cases w <;> rfl

theorem due_beginNext_zero (signals : Signals) {s : Schedule ω α}
    (h : ∀ f ∈ s.flights, f.due = s.now) :
    ∀ f ∈ (beginNext signals (fun _ => 0) s).flights, f.due = s.now := by
  unfold beginNext
  split
  · exact h
  · next u rest hw =>
    intro f hf
    rcases List.mem_cons.1 ((enqueue_perm _ _).mem_iff.1 hf) with rfl | hf
    · cases s.works[u]? with
      | none => rfl
      | some w => exact due_flightOf_zero signals s.now u w
    · exact h f hf

/-- A schedule whose units wait for nothing takes no time. -/
theorem now_run_of_instant (hlatency : ∀ u, machine.latency (backendOf u) = 0)
    (s : Schedule ω α) (h : ∀ f ∈ s.flights, f.due = s.now) :
    (s.run machine signals backendOf).now = s.now := by
  induction s using Schedule.run.induct machine signals backendOf with
  | case1 s hs => rw [run_of_next?_eq_none hs]
  | case2 s s' hs ih =>
    rw [run_of_next?_eq_some hs]
    obtain ⟨f, rest, hf, hcases⟩ := next?_cases hs
    have hfirst : f.due = s.now := h f (hf ▸ List.mem_cons_self)
    have hrest : ∀ g ∈ rest, g.due = s.now := fun g hg => h g (hf ▸ List.mem_cons_of_mem f hg)
    rcases hcases with ⟨-, rfl⟩ | ⟨a, -, rfl⟩
      | ⟨w, w', world, -, -, -, -, hnow, -, -, -, hflights⟩
    · exact ih hrest
    · simp only [hlatency, hfirst] at ih ⊢
      rw [now_beginNext] at ih
      refine ih fun g hg => ?_
      exact due_beginNext_zero signals (s := { s with now := s.now, flights := rest, ended := _ })
        hrest g hg
    · rw [hnow, hfirst] at ih
      refine ih fun g hg => ?_
      rw [hflights, hlatency, hfirst] at hg
      have hwaiting := due_flightOf_zero signals s.now f.unit w'
      split at hg
      · rcases List.mem_cons.1 ((enqueue_perm _ rest).mem_iff.1 hg) with rfl | hg
        · exact hwaiting
        · exact hrest g hg
      · rcases List.mem_cons.1 hg with rfl | hg
        · exact hwaiting
        · exact hrest g hg

theorem due_beginMany_zero (signals : Signals) : ∀ (count : Nat) (s : Schedule ω α),
    (∀ f ∈ s.flights, f.due = s.now) →
      ∀ f ∈ (beginMany signals (fun _ => 0) count s).flights, f.due = s.now
  | 0, _, h => h
  | count + 1, s, h => by
      have hnext := due_beginNext_zero signals h
      rw [← now_beginNext signals (fun _ => 0) s] at hnext ⊢
      exact due_beginMany_zero signals count _ hnext

/-- **A phase over backends that answer at once takes no time.** -/
theorem now_phase_of_instant (hlatency : ∀ i, machine.latency i = 0) :
    (phase machine signals concurrent now jobs world).now = now := by
  have hstart := due_beginMany_zero signals (min concurrent jobs.length)
    (start jobs now world) fun f hf => absurd hf List.not_mem_nil
  rw [phase_eq]
  simp only [hlatency]
  rw [now_run_of_instant (fun _ => hlatency _) _ fun f hf => ?_, now_beginMany]
  · rfl
  · rw [hstart f hf, now_beginMany]

/-! ## Late deadlines -/

theorem flightOf_late (latency now u : Nat) (w : Work α) :
    ∃ f, ∀ᶠ deadline in Filter.atTop, flightOf ⟨deadline, none⟩ latency now u w = f := by
  refine ⟨flightOf ⟨now + latency, none⟩ latency now u w, ?_⟩
  filter_upwards [Filter.eventually_ge_atTop (now + latency)] with deadline hlate
  cases w with
  | observe c next =>
    by_cases h0 : latency = 0
    · simp [flightOf, h0]
    · simp [flightOf, h0, Signals.before?, Nat.not_lt.2 hlate]
  | _ => rfl

theorem advance_late (machine : Machine ω) (backend : Nat) (f : Flight) (world : ω) (w : Work α) :
    ∃ out, ∀ᶠ deadline in Filter.atTop,
      advance machine ⟨deadline, none⟩ backend f world w = out := by
  cases w with
  | check next =>
    refine ⟨(next none, world), ?_⟩
    filter_upwards [Filter.eventually_gt_atTop f.due] with deadline hlate
    simp [advance, Signals.at?, Nat.not_le.2 hlate]
  | _ => exact ⟨_, .of_forall fun _ => rfl⟩

theorem beginNext_late (latency : Nat → Nat) (s : Schedule ω α) :
    ∃ s', ∀ᶠ deadline in Filter.atTop, beginNext ⟨deadline, none⟩ latency s = s' := by
  cases hwaiting : s.waiting with
  | nil => exact ⟨s, .of_forall fun _ => by simp only [beginNext, hwaiting]⟩
  | cons u rest =>
    cases hw : s.works[u]? with
    | none =>
      refine ⟨{ s with flights := enqueue ⟨s.now, u, none⟩ s.flights, waiting := rest }, ?_⟩
      exact .of_forall fun _ => by simp only [beginNext, hwaiting, hw, Option.elim_none]
    | some w =>
      obtain ⟨f, hf⟩ := flightOf_late (latency u) s.now u w
      refine ⟨{ s with flights := enqueue f s.flights, waiting := rest }, ?_⟩
      exact hf.mono fun _ h => by simp only [beginNext, hwaiting, hw, Option.elim_some, h]

theorem beginMany_late (latency : Nat → Nat) : ∀ (count : Nat) (s : Schedule ω α),
    ∃ s', ∀ᶠ deadline in Filter.atTop, beginMany ⟨deadline, none⟩ latency count s = s'
  | 0, s => ⟨s, .of_forall fun _ => rfl⟩
  | count + 1, s => by
      obtain ⟨s₁, h₁⟩ := beginNext_late latency s
      obtain ⟨s₂, h₂⟩ := beginMany_late latency count s₁
      refine ⟨s₂, ?_⟩
      filter_upwards [h₁, h₂] with deadline h₁ h₂
      rw [beginMany, h₁, h₂]

theorem next?_late (machine : Machine ω) (backendOf : Nat → Nat) (s : Schedule ω α) :
    ∃ o, ∀ᶠ deadline in Filter.atTop, s.next? machine ⟨deadline, none⟩ backendOf = o := by
  cases hf : s.flights with
  | nil => exact ⟨none, .of_forall fun _ => by simp only [next?, hf]⟩
  | cons f rest =>
    cases hw : s.works[f.unit]? with
    | none =>
      exact ⟨some { s with flights := rest }, .of_forall fun _ => by simp only [next?, hf, hw]⟩
    | some w =>
      obtain ⟨⟨w', world⟩, hout⟩ := advance_late machine (backendOf f.unit) f s.world w
      obtain ⟨g, hg⟩ := flightOf_late (machine.latency (backendOf f.unit)) f.due f.unit w'
      cases w with
      | done a =>
        obtain ⟨s', hs'⟩ := beginNext_late (fun u => machine.latency (backendOf u))
          { s with now := f.due, flights := rest, ended := s.ended ++ [f.unit] }
        exact ⟨some s', hs'.mono fun _ h => by simp only [next?, hf, hw, h]⟩
      | _ =>
        refine ⟨some { s with
          world := world
          now := f.due
          works := s.works.set f.unit w'
          flights := if waits (machine.latency (backendOf f.unit)) w' then enqueue g rest
            else g :: rest }, ?_⟩
        filter_upwards [hout, hg] with deadline hout hg
        simp only [next?, hf, hw, hout, hg]

/-- A schedule takes the same course whatever the deadline, if only it is late enough. -/
theorem run_late (machine : Machine ω) (backendOf : Nat → Nat) (s : Schedule ω α) :
    ∃ s', ∀ᶠ deadline in Filter.atTop, s.run machine ⟨deadline, none⟩ backendOf = s' := by
  obtain ⟨o, ho⟩ := next?_late machine backendOf s
  cases o with
  | none => exact ⟨s, ho.mono fun _ h => run_of_next?_eq_none h⟩
  | some s' =>
    obtain ⟨deadline, h⟩ := ho.exists
    obtain ⟨s'', hs''⟩ := run_late machine backendOf s'
    refine ⟨s'', ?_⟩
    filter_upwards [ho, hs''] with deadline h hs''
    rw [run_of_next?_eq_some h, hs'']
termination_by s.remaining
decreasing_by exact remaining_next machine _ backendOf s s' h

/-- **A phase takes the same course whatever the deadline**, if only it is late enough. -/
theorem phase_late (machine : Machine ω) (concurrent now : Nat) (jobs : List (Job α))
    (world : ω) : ∃ s', ∀ᶠ deadline in Filter.atTop,
      phase machine ⟨deadline, none⟩ concurrent now jobs world = s' := by
  obtain ⟨s₁, h₁⟩ := beginMany_late (fun u => machine.latency (Job.backendOf jobs u))
    (min concurrent jobs.length) (start jobs now world)
  obtain ⟨s₂, h₂⟩ := run_late machine (Job.backendOf jobs) s₁
  refine ⟨s₂, ?_⟩
  filter_upwards [h₁, h₂] with deadline h₁ h₂
  rw [phase_eq, h₁, h₂]

/-! ## Counting steps -/

/-- So many steps of a schedule, or all of them if there are fewer. -/
def runFor (machine : Machine ω) (signals : Signals) (backendOf : Nat → Nat) :
    (steps : Nat) → Schedule ω α → Schedule ω α
  | 0, s => s
  | steps + 1, s =>
    match s.next? machine signals backendOf with
    | none => s
    | some s' => runFor machine signals backendOf steps s'

theorem run_runFor : ∀ (steps : Nat) (s : Schedule ω α),
    (runFor machine signals backendOf steps s).run machine signals backendOf
      = s.run machine signals backendOf
  | 0, _ => rfl
  | steps + 1, s => by
      unfold runFor
      cases hs : s.next? machine signals backendOf with
      | none => rfl
      | some s' => exact (run_runFor steps s').trans (run_of_next?_eq_some hs).symm

/-- So many steps of a phase, or all of them if there are fewer. -/
def phaseFor (machine : Machine ω) (signals : Signals) (concurrent now : Nat)
    (jobs : List (Job α)) (world : ω) (steps : Nat) : Schedule ω α :=
  runFor machine signals (Job.backendOf jobs) steps
    (beginMany signals (fun u => machine.latency (Job.backendOf jobs u))
      (min concurrent jobs.length) (start jobs now world))

/-- **So many steps are a whole phase** if no unit is in flight after them. -/
theorem phase_eq_phaseFor (steps : Nat)
    (h : (phaseFor machine signals concurrent now jobs world steps).flights = []) :
    phase machine signals concurrent now jobs world
      = phaseFor machine signals concurrent now jobs world steps := by
  rw [phase_eq, ← run_runFor steps]
  refine run_of_next?_eq_none ?_
  rw [phaseFor] at h
  rw [next?, h]

end Schedule

end RegistryFleet
