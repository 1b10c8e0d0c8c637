import RegistryFleet.Proofs.Reconcile.Interleaving
import RegistryFleet.Reconcile.Unit

/-!
# Proofs/Reconcile/Ownership — units that see different parts of a world do not meet

A `Division` gives each unit of a phase its view of the world. A unit is secure if each of its
steps leaves the views of all the others alone; then what is said about the unit and its view can
be proved of the unit by itself, whatever the schedule.

* `Division.Secure` — what holds of a unit at its end, by recursion on what is left of its work.
* `Division.phase_secure` — what holds of each unit by itself holds at the end of the phase.
* `Division.secure_runActions` — an invariant of the loop over the actions of a unit.
-/

namespace RegistryFleet

/-- **A division of a world** among the units of a phase. -/
structure Division (ω V : Type) where
  machine : Machine ω
  backendOf : Nat → Nat
  /-- How many units there are. -/
  units : Nat
  /-- What is true of the world at every step. -/
  sound : ω → Prop
  /-- What a unit sees of the world. -/
  view : Nat → ω → V

/-- A failure that does not end the unit. -/
theorem halted_failureOutcome {s : Progress} {a : Action} {err : Error}
    (h : err.isFatal = false) : (failureOutcome s a err).2.halted = s.halted := by
  unfold failureOutcome
  split
  · rfl
  · simp [h]

namespace Division

variable {ω V α β : Type} {d : Division ω V} {u : Nat} {calm : Prop}

/-! ## Steps that leave the other units alone -/

/-- The world is changed for no unit but one. -/
structure Keeps (d : Division ω V) (u : Nat) (before after : ω) : Prop where
  sound : d.sound after
  others : ∀ v < d.units, v ≠ u → d.view v after = d.view v before

/-- **A step of a unit**, from what it sees to what it is told and sees then. -/
def Acts (d : Division ω V) (u : Nat) (step : ω → β × ω) (post : β → V → Prop) (v : V) : Prop :=
  ∀ world, d.sound world → d.view u world = v →
    d.Keeps u world (step world).2 ∧ post (step world).1 (d.view u (step world).2)

theorem Acts.mono {step : ω → β × ω} {P Q : β → V → Prop} {v : V} (h : d.Acts u step P v)
    (hPQ : ∀ b v, P b v → Q b v) : d.Acts u step Q v := fun world hsound hview =>
  ⟨(h world hsound hview).1, hPQ _ _ (h world hsound hview).2⟩

/-- **What holds at the end of a unit's work**, provided that the other units keep to their own. In
a calm run no question for an interruption is answered by one. -/
def Secure (d : Division ω V) (u : Nat) (calm : Prop) (Q : α → V → Prop) : Work α → V → Prop
  | .done a, v => Q a v
  | .check next, v => ∀ i, (calm → i = none) → Secure d u calm Q (next i) v
  | .call c next, v =>
    d.Acts u (d.machine.serve (d.backendOf u) c) (fun a => Secure d u calm Q (next a)) v
  | .observe c next, v =>
    (¬ calm → ∀ i, Secure d u calm Q (next (.error i)) v)
      ∧ d.Acts u (d.machine.serve (d.backendOf u) c)
          (fun a => Secure d u calm Q (next (.ok a))) v
  | .settle e next, v =>
    d.Acts u (d.machine.settle e) (fun a => Secure d u calm Q (next a)) v

theorem Secure.mono {P Q : α → V → Prop} (hPQ : ∀ a v, P a v → Q a v) :
    ∀ {w : Work α} {v : V}, d.Secure u calm P w v → d.Secure u calm Q w v
  | .done _, _, h => hPQ _ _ h
  | .check _, _, h => fun i hi => Secure.mono hPQ (h i hi)
  | .call _ _, _, h => Acts.mono h fun _ _ => Secure.mono hPQ
  | .observe _ _, _, h =>
    ⟨fun hc i => Secure.mono hPQ (h.1 hc i), Acts.mono h.2 fun _ _ => Secure.mono hPQ⟩
  | .settle _ _, _, h => Acts.mono h fun _ _ => Secure.mono hPQ

/-- **Work in sequence.** -/
theorem Secure.bind {Q : β → V → Prop} {f : α → Work β} : ∀ {w : Work α} {v : V},
    d.Secure u calm (fun a => d.Secure u calm Q (f a)) w v → d.Secure u calm Q (w >>= f) v
  | .done _, _, h => h
  | .check _, _, h => fun i hi => Secure.bind (h i hi)
  | .call _ _, _, h => Acts.mono h fun _ _ => Secure.bind
  | .observe _ _, _, h =>
    ⟨fun hc i => Secure.bind (h.1 hc i), Acts.mono h.2 fun _ _ => Secure.bind⟩
  | .settle _ _, _, h => Acts.mono h fun _ _ => Secure.bind

/-- An action that begins with a call. -/
theorem Secure.acting {c : Call} {next : c.Answer → Calls α} {Q : α → V → Prop} {v : V}
    (h : d.Acts u (d.machine.serve (d.backendOf u) c)
      (fun a => d.Secure u calm Q (Work.acting (next a))) v) :
    d.Secure u calm Q (Work.acting (.ask c next)) v := by
  rw [Work.acting]
  exact h

/-- An observation that begins with a call. -/
theorem Secure.observing {c : Call} {next : c.Answer → Calls α}
    {Q : Except Interruption α → V → Prop} {v : V} (herror : ¬ calm → ∀ i, Q (.error i) v)
    (hok : d.Acts u (d.machine.serve (d.backendOf u) c)
      (fun a => d.Secure u calm Q (Work.observing (next a))) v) :
    d.Secure u calm Q (Work.observing (.ask c next)) v := by
  rw [Work.observing]
  exact ⟨herror, hok⟩

/-! ## A whole phase -/

/-- Every unit is secure from what it sees. -/
structure Secured (d : Division ω V) (calm : Prop) (Q : Nat → α → V → Prop)
    (works : List (Work α)) (world : ω) : Prop where
  sound : d.sound world
  units : works.length = d.units
  each : ∀ u w, works[u]? = some w → d.Secure u calm (Q u) w (d.view u world)

/-- A step of the work of a secure unit. -/
theorem Secure.step {Q : α → V → Prop} {w w' : Work α} {world world' : ω}
    (h : d.Secure u calm Q w (d.view u world)) (hsound : d.sound world)
    (hstep : Work.Step (d.machine.serve (d.backendOf u)) d.machine.settle calm (w, world)
      (w', world')) :
    d.Keeps u world world' ∧ d.Secure u calm Q w' (d.view u world') := by
  cases hstep with
  | check next _ i hi => exact ⟨⟨hsound, fun _ _ _ => rfl⟩, h i hi⟩
  | call c next => exact h world hsound rfl
  | observe c next => exact h.2 world hsound rfl
  | abandon c next _ i hc => exact ⟨⟨hsound, fun _ _ _ => rfl⟩, h.1 hc i⟩
  | settle e next => exact h world hsound rfl

/-- **One step keeps every unit secure.** -/
theorem Secured.step {Q : Nat → α → V → Prop} {works works' : List (Work α)} {world world' : ω}
    (h : d.Secured calm Q works world)
    (hstep : d.machine.Step d.backendOf calm (works, world) (works', world')) :
    d.Secured calm Q works' world' := by
  cases hstep with
  | @unit _ _ _ u w w' hu hw =>
    obtain ⟨hkeeps, hsecure⟩ := (h.each u w hu).step h.sound hw
    have hlt : u < works.length := (List.getElem?_eq_some_iff.1 hu).1
    refine ⟨hkeeps.sound, by rw [List.length_set, h.units], fun v x hx => ?_⟩
    rcases eq_or_ne u v with rfl | hne
    · rw [List.getElem?_set_self hlt] at hx
      exact Option.some.inj hx ▸ hsecure
    · rw [List.getElem?_set_ne hne] at hx
      have hv : v < d.units := h.units ▸ (List.getElem?_eq_some_iff.1 hx).1
      rw [hkeeps.others v hv hne.symm]
      exact h.each v x hx

/-- **Many steps keep every unit secure.** -/
theorem Secured.steps {Q : Nat → α → V → Prop} {s s' : List (Work α) × ω}
    (h : d.Secured calm Q s.1 s.2)
    (hsteps : Relation.ReflTransGen (d.machine.Step d.backendOf calm) s s') :
    d.Secured calm Q s'.1 s'.2 := by
  induction hsteps with
  | refl => exact h
  | tail _ hstep ih => exact ih.step hstep

/-- Before a phase every unit is secure, if each is by itself. -/
theorem secured_start {Q : Nat → α → V → Prop} {jobs : List (Job α)} {world : ω}
    (hunits : d.units = jobs.length) (hsound : d.sound world)
    (heach : ∀ u job, jobs[u]? = some job →
      d.Secure u calm (Q u) job.work (d.view u world)) :
    d.Secured calm Q (jobs.map Job.work) world := by
  refine ⟨hsound, by rw [List.length_map, hunits], fun u w hw => ?_⟩
  rw [List.getElem?_map] at hw
  obtain ⟨job, hjob, rfl⟩ := Option.map_eq_some_iff.1 hw
  exact heach u job hjob

/-- At the end of a phase every unit is as secure as at its start. -/
theorem phase_secured (d : Division ω V) (calm : Prop) (Q : Nat → α → V → Prop)
    {jobs : List (Job α)} {signals : Signals} {concurrent now : Nat} {world : ω}
    (hbackend : d.backendOf = Job.backendOf jobs)
    (hunits : d.units = jobs.length) (hsound : d.sound world)
    (hcalm : calm →
      signals.at? (Schedule.phase d.machine signals concurrent now jobs world).now = none)
    (heach : ∀ u job, jobs[u]? = some job →
      d.Secure u calm (Q u) job.work (d.view u world)) :
    d.Secured calm Q (Schedule.phase d.machine signals concurrent now jobs world).works
      (Schedule.phase d.machine signals concurrent now jobs world).world := by
  have hstart : d.Secured calm Q (jobs.map Job.work) world := secured_start hunits hsound heach
  exact hstart.steps (hbackend ▸ Schedule.phase_reaches hcalm)

/-- **What holds of each unit by itself holds at the end of the phase**, of the value that the phase
collects from it. -/
theorem phase_secure (d : Division ω V) (calm : Prop) (Q : Nat → α → V → Prop)
    {jobs : List (Job α)} {signals : Signals} {concurrent now : Nat} {world : ω}
    (hbackend : d.backendOf = Job.backendOf jobs)
    (hunits : d.units = jobs.length) (hc : 0 < concurrent) (hsound : d.sound world)
    (hcalm : calm →
      signals.at? (Schedule.phase d.machine signals concurrent now jobs world).now = none)
    (heach : ∀ u job, jobs[u]? = some job →
      d.Secure u calm (Q u) job.work (d.view u world)) :
    ∃ vals, (Schedule.phase d.machine signals concurrent now jobs world).values.Perm vals
      ∧ vals.length = jobs.length
      ∧ d.sound (Schedule.phase d.machine signals concurrent now jobs world).world
      ∧ ∀ u a, vals[u]? = some a →
          Q u a (d.view u (Schedule.phase d.machine signals concurrent now jobs world).world) := by
  have hend := phase_secured d calm Q hbackend hunits hsound hcalm heach
  obtain ⟨vals, hworks, hvalues⟩ := Schedule.phase_ends d.machine signals now jobs world hc
  refine ⟨vals, hvalues, ?_, hend.sound, fun u a ha => ?_⟩
  · have := hend.units
    rw [hworks, List.length_map] at this
    omega
  · refine hend.each u (.done a) ?_
    rw [hworks, List.getElem?_map, ha]
    rfl

/-! ## Actions -/

/-- What follows on an action that has been performed. -/
def Settles (d : Division ω V) (u : Nat) (s : Progress) (a : Action)
    (Q : ActionResult × Progress → V → Prop) : Except Error Effect → V → Prop
  | .ok e, v =>
    d.Acts u (d.machine.settle e) (fun settled => Q (effectOutcome s a e settled)) v
  | .error err, v => Q (failureOutcome s a err) v

theorem Settles.ok {s : Progress} {a : Action} {Q : ActionResult × Progress → V → Prop} {e : Effect}
    {v : V} (h : d.Acts u (d.machine.settle e) (fun settled => Q (effectOutcome s a e settled)) v) :
    d.Settles u s a Q (.ok e) v := h

/-- **One action**, by what can become of it. -/
theorem secure_runAction {perform : Action → Work (Except Error Effect)} {dry : Bool}
    {s : Progress} {a : Action} {Q : ActionResult × Progress → V → Prop} {v : V}
    (hhalted : s.halted = true → Q (.plain a.description .notStarted, s) v)
    (hinterrupted : s.halted = false → ¬ calm →
      Q (.plain a.description .notStarted, { s with halted := true }) v)
    (hdry : s.halted = false → dry = true → Q (.plain a.description .planned, s) v)
    (hblocked : s.halted = false → dry = false → s.blocks a = true →
      Q (.plain a.description (.skipped "removing the previous binding failed"), s) v)
    (hperform : s.halted = false → dry = false → s.blocks a = false →
      d.Secure u calm (d.Settles u s a Q) (perform a) v) :
    d.Secure u calm Q (runAction Work.interrupted perform Work.settling dry s a) v := by
  unfold runAction
  split
  · next h => exact hhalted h
  · next h =>
    have h : s.halted = false := by simpa using h
    intro i hi
    cases i with
    | some i => exact hinterrupted h fun hc => Option.some_ne_none i (hi hc)
    | none =>
      change d.Secure u calm Q (ite _ _ _) v
      split
      · next hd => exact hdry h hd
      · next hd =>
        have hd : dry = false := by simpa using hd
        split
        · next hb => exact hblocked h hd hb
        · next hb =>
          refine Secure.bind ((hperform h hd (by simpa using hb)).mono fun r w hr => ?_)
          cases r with
          | ok e => exact hr
          | error err => exact hr

/-- The loop over the actions that are left. -/
theorem secure_runActions_of {perform : Action → Work (Except Error Effect)} {dry : Bool}
    {I : List ActionResult → Progress → List Action → V → Prop}
    (hstep : ∀ done s a rest v, I done s (a :: rest) v →
      d.Secure u calm (fun r w => I (done ++ [r.1]) r.2 rest w)
        (runAction Work.interrupted perform Work.settling dry s a) v) :
    ∀ {actions : List Action} {done : List ActionResult} {s : Progress} {v : V},
      I done s actions v →
        d.Secure u calm (fun rs w => ∃ s, I (done ++ rs) s [] w)
          (runActions Work.interrupted perform Work.settling dry s actions) v
  | [], done, s, v, h => ⟨s, (List.append_nil done).symm ▸ h⟩
  | a :: rest, done, s, v, h => by
      refine Secure.bind ((hstep done s a rest v h).mono fun r w hr => ?_)
      refine Secure.bind ((secure_runActions_of hstep hr).mono fun rs x hrs => ?_)
      obtain ⟨s', hrs⟩ := hrs
      exact ⟨s', by simpa using hrs⟩

/-- **The loop over the actions** — an invariant of what has been done and what is left. -/
theorem secure_runActions {perform : Action → Work (Except Error Effect)} {dry : Bool}
    {I : List ActionResult → Progress → List Action → V → Prop} {actions : List Action} {v : V}
    (hstart : I [] .start actions v)
    (hstep : ∀ done s a rest v, I done s (a :: rest) v →
      d.Secure u calm (fun r w => I (done ++ [r.1]) r.2 rest w)
        (runAction Work.interrupted perform Work.settling dry s a) v) :
    d.Secure u calm (fun rs w => ∃ s, I rs s [] w)
      (runActions Work.interrupted perform Work.settling dry .start actions) v :=
  secure_runActions_of hstep hstart

end Division

end RegistryFleet
