import RegistryFleet.Proofs.Reconcile.Course

/-!
# Proofs/Reconcile/Handling — the turns of a unit, action by action

The turns of a unit follow its work node by node. First come its question and its observation; the
rest divides among its actions, in their order. An action that is started has a question of its own
that no signal answers, then all of its calls, then the effect that it calls for. An action whose
question is answered by a signal is not started, and neither is any behind it.

* `Turn.Leads` — turns that follow the work of a unit.
* `Handling.Course` — the ways in which the loop over the actions can handle one of them.
* `Turn.Leads.divide_projectUnit`, `Turn.Leads.divide_memberUnit` — the turns of either kind of unit
  divide among its actions.
* `Schedule.Orderly.leads_turns` — the turns that a unit has in a schedule follow its work to its
  end.
-/

namespace RegistryFleet

variable {ω α β : Type}

/-! ## Turns -/

namespace Turn

/-- **The turn asks** for an interruption, and is told of one or of none. -/
structure Asks (signals : Signals) (t : Turn ω α) (answer : Option Interruption) : Prop where
  work : ∃ next, t.before = .check next ∧ t.after = next answer
  seen : signals.at? t.instant = answer
  still : t.world = t.origin

/-- **The turn makes a call** of an action, which is answered. -/
structure Makes (machine : Machine ω) (t : Turn ω α) (c : Call) (answer : c.Answer) : Prop where
  work : ∃ next, t.before = .call c next ∧ t.after = next answer
  served : machine.serve t.backend c t.origin = (answer, t.world)

/-- **The turn carries out an effect**, with this outcome. -/
structure Settles (machine : Machine ω) (t : Turn ω α) (e : Effect) (out : Except Error Unit) :
    Prop where
  work : ∃ next, t.before = .settle e next ∧ t.after = next out
  settled : machine.settle e t.origin = (out, t.world)

/-- **The turn observes**, or abandons an observation. -/
def Observes (t : Turn ω α) : Prop :=
  ∃ c next answer, t.before = .observe c next ∧ t.after = next answer

/-- **What a turn is**, by the front node of the work before it. -/
def Made (machine : Machine ω) (signals : Signals) (t : Turn ω α) : Prop :=
  match t.before with
  | .done _ => False
  | .check _ => ∃ answer, t.Asks signals answer
  | .call c _ => ∃ answer, t.Makes machine c answer
  | .observe .. => t.Observes
  | .settle e _ => ∃ out, t.Settles machine e out

/-- **Turns lead** from one work of a unit to another. -/
inductive Leads (machine : Machine ω) (signals : Signals) :
    Work α → List (Turn ω α) → Work α → Prop
  | refl (w : Work α) : Leads machine signals w [] w
  | turn {w v : Work α} {t : Turn ω α} {ts : List (Turn ω α)} (hbefore : t.before = w)
      (hmade : t.Made machine signals) (hrest : Leads machine signals t.after ts v) :
      Leads machine signals w (t :: ts) v

/-- **The turns make the calls of a tree**, from the first to the last, and end in its value. -/
inductive MakeAll (machine : Machine ω) : Calls β → List (Turn ω α) → β → Prop
  | done (b : β) : MakeAll machine (.done b) [] b
  | ask {c : Call} {next : c.Answer → Calls β} {t : Turn ω α} {answer : c.Answer}
      {ts : List (Turn ω α)} {b : β} (h : t.Makes machine c answer)
      (hrest : MakeAll machine (next answer) ts b) : MakeAll machine (.ask c next) (t :: ts) b

end Turn

/-! ## Handlings -/

/-- **How an action was handled**: what became of it, and the turns that were its own. -/
structure Handling (ω α : Type) where
  action : Action
  result : ActionResult
  turns : List (Turn ω α)

/-- What the unit of a registry may set out to do. -/
def projectPlan (p : Profile) (projects : List ProjectSpec) (steps : List Action) : Prop :=
  ∃ observed, steps = Action.projectSteps observed
    ((expectedOn p.registry.name projects).map ProjectSpec.name)

/-- What the unit of a project on a registry may set out to do. -/
def memberPlan (spec : ProjectSpec) (steps : List Action) : Prop :=
  ∃ observed, steps = Action.memberSteps spec.name observed spec.members

namespace Handling

/-- Was the action started? -/
def started (a : Handling ω α) : Bool := a.result.status != .notStarted

section

variable (machine : Machine ω) (signals : Signals) (p : Profile) (dry : Bool)

/-- **How an action can be handled**, from what is remembered before it to what is remembered after
it. -/
inductive Course : Progress → Handling ω α → Progress → Prop
  /-- The unit had been ended, and does not even ask. -/
  | left {s : Progress} {a : Action} (h : s.halted = true) :
      Course s ⟨a, .plain a.description .notStarted, []⟩ s
  /-- A signal answers the question, which ends the unit. -/
  | refused {s : Progress} {a : Action} {q : Turn ω α} {i : Interruption} (h : s.halted = false)
      (hq : q.Asks signals (some i)) :
      Course s ⟨a, .plain a.description .notStarted, [q]⟩ { s with halted := true }
  /-- Nothing is to be performed. -/
  | planned {s : Progress} {a : Action} {q : Turn ω α} (h : s.halted = false)
      (hq : q.Asks signals none) (hdry : dry = true) :
      Course s ⟨a, .plain a.description .planned, [q]⟩ s
  /-- An earlier binding of the member could not be undone. -/
  | blocked {s : Progress} {a : Action} {q : Turn ω α} (h : s.halted = false)
      (hq : q.Asks signals none) (hdry : dry = false) (hblocks : s.blocks a = true) :
      Course s ⟨a, .plain a.description (.skipped "removing the previous binding failed"), [q]⟩ s
  /-- All calls are made, and end in a failure. -/
  | failed {s : Progress} {a : Action} {q : Turn ω α} {ts : List (Turn ω α)} {err : Error}
      (h : s.halted = false) (hq : q.Asks signals none) (hdry : dry = false)
      (hblocks : s.blocks a = false) (hcalls : Turn.MakeAll machine (a.perform p) ts (.error err)) :
      Course s ⟨a, (failureOutcome s a err).1, q :: ts⟩ (failureOutcome s a err).2
  /-- All calls are made, and the effect they end in is carried out. -/
  | succeeded {s : Progress} {a : Action} {q t : Turn ω α} {ts : List (Turn ω α)} {e : Effect}
      {out : Except Error Unit} (h : s.halted = false) (hq : q.Asks signals none)
      (hdry : dry = false) (hblocks : s.blocks a = false)
      (hcalls : Turn.MakeAll machine (a.perform p) ts (.ok e))
      (hsettled : t.Settles machine e out) :
      Course s ⟨a, (effectOutcome s a e out).1, q :: (ts ++ [t])⟩ (effectOutcome s a e out).2

/-- **Actions handled one after the other**, from what is remembered before the first. -/
inductive InOrder : Progress → List (Handling ω α) → Prop
  | nil (s : Progress) : InOrder s []
  | cons {s s' : Progress} {a : Handling ω α} {rest : List (Handling ω α)}
      (h : Course machine signals p dry s a s') (hrest : InOrder s' rest) : InOrder s (a :: rest)

/-- **The turns of a unit divide among its actions**, behind turns that only ask and observe; its
result lists what became of each action. -/
structure Divide (project : Option String) (plan : List Action → Prop) (turns : List (Turn ω α))
    (r : UnitResult) (handlings : List (Handling ω α)) : Prop where
  subject : r.registry = p.registry.name ∧ r.project = project
  turns : ∃ opening, turns = opening ++ handlings.flatMap Handling.turns
    ∧ ∀ t ∈ opening, (∃ answer, t.Asks signals answer) ∨ t.Observes
  inOrder : InOrder machine signals p dry .start handlings
  results : r.actions = handlings.map Handling.result
  planned : handlings = [] ∨ plan (handlings.map Handling.action)

end

end Handling

/-! ## Following the work -/

namespace Turn.Leads

variable {machine : Machine ω} {signals : Signals} {r : α} {turns : List (Turn ω α)}

/-- Work that has ended leads nowhere. -/
theorem of_done {v : Work α} (h : Leads machine signals (.done r) turns v) :
    turns = [] ∧ v = .done r := by
  cases h with
  | refl => exact ⟨rfl, rfl⟩
  | turn hbefore hmade => simp [Made, hbefore] at hmade

theorem of_check {next : Option Interruption → Work α}
    (h : Leads machine signals (.check next) turns (.done r)) :
    ∃ q answer rest, turns = q :: rest ∧ q.Asks signals answer
      ∧ Leads machine signals (next answer) rest (.done r) := by
  cases h with
  | turn hbefore hmade hrest =>
    simp only [Made, hbefore] at hmade
    obtain ⟨answer, hasks⟩ := hmade
    obtain ⟨next', hcheck, hafter⟩ := hasks.work
    obtain rfl := Work.check.inj (hbefore.symm.trans hcheck)
    exact ⟨_, answer, _, rfl, hasks, hafter ▸ hrest⟩

theorem of_call {c : Call} {next : c.Answer → Work α}
    (h : Leads machine signals (.call c next) turns (.done r)) :
    ∃ t answer rest, turns = t :: rest ∧ t.Makes machine c answer
      ∧ Leads machine signals (next answer) rest (.done r) := by
  cases h with
  | turn hbefore hmade hrest =>
    simp only [Made, hbefore] at hmade
    obtain ⟨answer, hmakes⟩ := hmade
    obtain ⟨next', hcall, hafter⟩ := hmakes.work
    obtain ⟨-, hnext⟩ := Work.call.inj (hbefore.symm.trans hcall)
    obtain rfl := eq_of_heq hnext
    exact ⟨_, answer, _, rfl, hmakes, hafter ▸ hrest⟩

theorem of_observe {c : Call} {next : Except Interruption c.Answer → Work α}
    (h : Leads machine signals (.observe c next) turns (.done r)) :
    ∃ t answer rest, turns = t :: rest ∧ t.Observes
      ∧ Leads machine signals (next answer) rest (.done r) := by
  cases h with
  | turn hbefore hmade hrest =>
    simp only [Made, hbefore] at hmade
    obtain ⟨c', next', answer, hobserve, hafter⟩ := id hmade
    cases hbefore.symm.trans hobserve
    exact ⟨_, answer, _, rfl, hmade, hafter ▸ hrest⟩

theorem of_settle {e : Effect} {next : Except Error Unit → Work α}
    (h : Leads machine signals (.settle e next) turns (.done r)) :
    ∃ t out rest, turns = t :: rest ∧ t.Settles machine e out
      ∧ Leads machine signals (next out) rest (.done r) := by
  cases h with
  | turn hbefore hmade hrest =>
    simp only [Made, hbefore] at hmade
    obtain ⟨out, hsettles⟩ := hmade
    obtain ⟨next', hsettle, hafter⟩ := hsettles.work
    obtain ⟨-, rfl⟩ := Work.settle.inj (hbefore.symm.trans hsettle)
    exact ⟨_, out, _, rfl, hsettles, hafter ▸ hrest⟩

/-- **An action is performed to its end**, and what follows on it is gone on with. -/
theorem of_acting {f : β → Work α} (calls : Calls β)
    (h : Leads machine signals ((Work.acting calls).bind f) turns (.done r)) :
    ∃ b ts rest, turns = ts ++ rest ∧ MakeAll machine calls ts b
      ∧ Leads machine signals (f b) rest (.done r) := by
  induction calls generalizing turns with
  | done b => exact ⟨b, [], turns, rfl, .done b, h⟩
  | ask c next ih =>
    obtain ⟨t, answer, later, rfl, hmakes, hlater⟩ := of_call h
    obtain ⟨b, ts, rest, rfl, hall, hrest⟩ := ih answer hlater
    exact ⟨b, t :: ts, rest, rfl, .ask hmakes hall, hrest⟩

/-- **An observation**, which may be abandoned, and what follows on it. -/
theorem of_observing {f : Except Interruption β → Work α} (calls : Calls β)
    (h : Leads machine signals ((Work.observing calls).bind f) turns (.done r)) :
    ∃ b ts rest, turns = ts ++ rest ∧ (∀ t ∈ ts, t.Observes)
      ∧ Leads machine signals (f b) rest (.done r) := by
  induction calls generalizing turns with
  | done b => exact ⟨.ok b, [], turns, rfl, by simp, h⟩
  | ask c next ih =>
    rw [Work.observing] at h
    obtain ⟨t, answer, later, rfl, hobserves, hlater⟩ := of_observe h
    cases answer with
    | error i => exact ⟨.error i, [t], later, rfl, by simpa using hobserves, hlater⟩
    | ok answer =>
      obtain ⟨b, ts, rest, rfl, hall, hrest⟩ := ih answer hlater
      exact ⟨b, t :: ts, rest, rfl, by simpa using ⟨hobserves, hall⟩, hrest⟩

/-! ## The loop over the actions -/

variable {p : Profile} {dry : Bool} {s : Progress}

/-- **One round of the loop handles one action.** -/
theorem of_runAction {k : ActionResult × Progress → Work α} (a : Action)
    (h : Leads machine signals ((runAction Work.interrupted (fun a => Work.acting (a.perform p))
      Work.settling dry s a).bind k) turns (.done r)) :
    ∃ handling s' rest, turns = handling.turns ++ rest ∧ handling.action = a
      ∧ Handling.Course machine signals p dry s handling s'
      ∧ Leads machine signals (k (handling.result, s')) rest (.done r) := by
  unfold runAction at h
  split at h
  next hhalted => exact ⟨_, s, turns, rfl, rfl, .left hhalted, h⟩
  next hgoing =>
    have hgoing : s.halted = false := by simpa using hgoing
    obtain ⟨q, answer, later, rfl, hq, hlater⟩ := of_check h
    cases answer with
    | some i => exact ⟨_, _, later, rfl, rfl, .refused hgoing hq, hlater⟩
    | none =>
      change Leads machine signals (Work.bind (ite _ _ _) k) later (.done r) at hlater
      split at hlater
      next hdry => exact ⟨_, s, later, rfl, rfl, .planned hgoing hq hdry, hlater⟩
      next hperforms =>
        have hdry : dry = false := by simpa using hperforms
        split at hlater
        next hblocks => exact ⟨_, s, later, rfl, rfl, .blocked hgoing hq hdry hblocks, hlater⟩
        next hfree =>
          have hblocks : s.blocks a = false := by simpa using hfree
          change Leads machine signals
            (Work.bind (Work.bind (Work.acting (a.perform p)) _) k) later (.done r) at hlater
          rw [Work.bind_assoc] at hlater
          obtain ⟨outcome, ts, rest, rfl, hcalls, hrest⟩ := of_acting _ hlater
          cases outcome with
          | error err => exact ⟨_, _, rest, rfl, rfl, .failed hgoing hq hdry hblocks hcalls, hrest⟩
          | ok e =>
            obtain ⟨t, out, rest, rfl, hsettles, hrest⟩ := of_settle hrest
            refine ⟨_, _, rest, ?_, rfl, .succeeded hgoing hq hdry hblocks hcalls hsettles, hrest⟩
            simp

/-- **The loop handles one action after the other**, and ends with the results of all. -/
theorem of_runActions : ∀ (actions : List Action) (s : Progress)
    {f : List ActionResult → α} {turns : List (Turn ω α)},
    Leads machine signals ((runActions Work.interrupted (fun a => Work.acting (a.perform p))
      Work.settling dry s actions).bind fun rs => .done (f rs)) turns (.done r) →
    ∃ handlings, turns = handlings.flatMap Handling.turns
      ∧ handlings.map Handling.action = actions
      ∧ Handling.InOrder machine signals p dry s handlings
      ∧ r = f (handlings.map Handling.result)
  | [], s, f, turns, h => by
      obtain ⟨rfl, hr⟩ := of_done h
      exact ⟨[], rfl, rfl, .nil s, Work.done.inj hr⟩
  | a :: rest, s, f, turns, h => by
      rw [runActions] at h
      change Leads machine signals (Work.bind (Work.bind (runAction _ _ _ _ s a) _) _) turns _ at h
      rw [Work.bind_assoc] at h
      obtain ⟨handling, s', later, rfl, rfl, hcourse, hlater⟩ := of_runAction a h
      change Leads machine signals (Work.bind (Work.bind (runActions _ _ _ _ s' rest) _) _) later _
        at hlater
      rw [Work.bind_assoc] at hlater
      obtain ⟨handlings, rfl, rfl, hrest, hr⟩ :=
        of_runActions (f := fun rs => f (handling.result :: rs)) rest s' hlater
      exact ⟨handling :: handlings, rfl, rfl, .cons hcourse hrest, hr⟩

/-! ## The units of a run -/

variable {project : Option String} {plan : List Action → Prop} {r : UnitResult}
  {opening turns : List (Turn ω UnitResult)}

/-- A unit that has no actions. -/
theorem divide_plain {status : UnitStatus}
    (hopening : ∀ t ∈ opening, (∃ answer, t.Asks signals answer) ∨ t.Observes)
    (h : Leads machine signals (.done (.plain p.registry.name project status)) turns (.done r)) :
    ∃ handlings,
      Handling.Divide machine signals p dry project plan (opening ++ turns) r handlings := by
  obtain ⟨rfl, hr⟩ := of_done h
  obtain rfl := Work.done.inj hr
  exact ⟨[], ⟨rfl, rfl⟩, ⟨opening, rfl, hopening⟩, .nil _, rfl, .inl rfl⟩

/-- The actions of a unit. -/
theorem divide_actions {steps : List Action} (hplan : plan steps)
    (hopening : ∀ t ∈ opening, (∃ answer, t.Asks signals answer) ∨ t.Observes)
    (h : Leads machine signals ((Work.actions p dry steps).bind fun rs =>
      .done (.ofActions p.registry.name project rs)) turns (.done r)) :
    ∃ handlings,
      Handling.Divide machine signals p dry project plan (opening ++ turns) r handlings := by
  obtain ⟨handlings, rfl, rfl, hinOrder, rfl⟩ := of_runActions steps .start h
  exact ⟨handlings, ⟨rfl, rfl⟩, ⟨opening, rfl, hopening⟩, hinOrder, rfl, .inr hplan⟩

/-- A question and an observation are an opening. -/
theorem opening_cons {q : Turn ω α} {ts : List (Turn ω α)} {answer : Option Interruption}
    (hq : q.Asks signals answer) (hts : ∀ t ∈ ts, t.Observes) :
    ∀ t ∈ q :: ts, (∃ answer, t.Asks signals answer) ∨ t.Observes :=
  List.forall_mem_cons.2 ⟨.inl ⟨answer, hq⟩, fun t ht => .inr (hts t ht)⟩

/-- **The unit of a registry** handles its actions one by one. -/
theorem divide_projectUnit {projects : List ProjectSpec}
    (h : Leads machine signals (projectUnit p projects dry) turns (.done r)) :
    ∃ handlings, Handling.Divide machine signals p dry none (projectPlan p projects) turns r
      handlings := by
  obtain ⟨q, answer, later, rfl, hq, hlater⟩ := of_check h
  cases answer with
  | some i => exact divide_plain (opening_cons hq (List.forall_mem_nil _)) hlater
  | none =>
    obtain ⟨seen, ts, rest, rfl, hts, hrest⟩ := of_observing _ hlater
    have hopening := opening_cons hq hts
    match seen with
    | .error i => exact divide_plain hopening hrest
    | .ok (.error e) => exact divide_plain hopening hrest
    | .ok (.ok observed) => exact divide_actions ⟨_, rfl⟩ hopening hrest

/-- **The unit of a project on a registry** handles its actions one by one. -/
theorem divide_memberUnit {spec : ProjectSpec}
    (h : Leads machine signals (memberUnit p spec dry) turns (.done r)) :
    ∃ handlings, Handling.Divide machine signals p dry (some spec.name) (memberPlan spec) turns r
      handlings := by
  obtain ⟨q, answer, later, rfl, hq, hlater⟩ := of_check h
  cases answer with
  | some i => exact divide_plain (opening_cons hq (List.forall_mem_nil _)) hlater
  | none =>
    change Leads machine signals (ite _ _ _) later (.done r) at hlater
    split at hlater
    next => exact divide_plain (opening_cons hq (List.forall_mem_nil _)) hlater
    next =>
      obtain ⟨seen, ts, rest, rfl, hts, hrest⟩ := of_observing _ hlater
      have hopening := opening_cons hq hts
      match seen with
      | .error i => exact divide_plain hopening hrest
      | .ok (.ok observed) => exact divide_actions ⟨_, rfl⟩ hopening hrest
      | .ok (.error (.notFound entity name)) =>
        change Leads machine signals (ite _ _ _) rest (.done r) at hrest
        split at hrest
        next => exact divide_actions ⟨_, rfl⟩ hopening hrest
        next => exact divide_plain hopening hrest
      | .ok (.error (.recoverable _)) => exact divide_plain hopening hrest
      | .ok (.error (.configuration _)) => exact divide_plain hopening hrest
      | .ok (.error (.notImplemented ..)) => exact divide_plain hopening hrest

end Turn.Leads

/-! ## The turns of one unit in a schedule -/

/-- **The turns of a unit** in a course. -/
def Turn.ofUnit (u : Nat) (course : List (Turn ω α)) : List (Turn ω α) :=
  course.filter fun t => t.unit = u

theorem Turn.mem_ofUnit {u : Nat} {course : List (Turn ω α)} {t : Turn ω α} :
    t ∈ ofUnit u course ↔ t ∈ course ∧ t.unit = u := by
  rw [ofUnit, List.mem_filter, decide_eq_true_eq]

namespace Schedule

variable {machine : Machine ω} {signals : Signals} {backendOf : Nat → Nat} {s s' : Schedule ω α}
  {t : Turn ω α} {u : Nat} {w : Work α}

/-- **A schedule in order**: it keeps track of its units and of time, and none waits in vain. -/
structure Orderly (signals : Signals) (s : Schedule ω α) : Prop where
  tracked : s.Tracked
  busy : s.Busy
  timely : Timely signals s.now s.flights

/-- What a turn is. -/
theorem Taken.made (h : Taken machine signals backendOf s s' t) : t.Made machine signals := by
  obtain ⟨f, -, hdue, hadvance⟩ := h.answered
  have hstill := h.origin
  have hunfinished := h.unfinished
  cases hbefore : t.before with
  | done a => exact absurd hbefore (hunfinished a)
  | check next =>
    rw [hbefore] at hadvance
    obtain ⟨hafter, hworld⟩ := Prod.mk.inj hadvance
    simp only [Turn.Made, hbefore]
    exact ⟨_, ⟨next, hbefore, hafter⟩, by rw [hdue], hworld.trans hstill.symm⟩
  | call c next =>
    rw [hbefore] at hadvance
    obtain ⟨hafter, hworld⟩ := Prod.mk.inj hadvance
    simp only [Turn.Made, hbefore]
    exact ⟨_, ⟨next, hbefore, hafter⟩, by rw [hstill, hworld]⟩
  | observe c next =>
    rw [hbefore] at hadvance
    simp only [Turn.Made, hbefore]
    unfold advance at hadvance
    cases hcut : f.cut with
    | some i =>
      simp only [hcut] at hadvance
      exact ⟨c, next, _, hbefore, (Prod.mk.inj hadvance).1⟩
    | none =>
      simp only [hcut] at hadvance
      exact ⟨c, next, _, hbefore, (Prod.mk.inj hadvance).1⟩
  | settle e next =>
    rw [hbefore] at hadvance
    obtain ⟨hafter, hworld⟩ := Prod.mk.inj hadvance
    simp only [Turn.Made, hbefore]
    exact ⟨_, ⟨next, hbefore, hafter⟩, by rw [hstill, hworld]⟩

namespace Orderly

theorem next (h : Orderly signals s) (hs : s.next? machine signals backendOf = some s') :
    Orderly signals s' :=
  ⟨h.tracked.next hs, Busy.next h.tracked hs, (h.timely.next hs).2⟩

/-- At its end every unit of a schedule has ended. -/
theorem done_of_end (h : Orderly signals s) (hs : s.next? machine signals backendOf = none)
    (hu : s.works[u]? = some w) : ∃ a, w = .done a := by
  have hflights := flights_eq_nil_of_next? hs
  have hmem : u ∈ s.ended := by
    have hunits := h.tracked.units.mem_iff.2
      (List.mem_range.2 (List.getElem?_eq_some_iff.1 hu).1)
    simpa [hflights, h.busy hflights] using hunits
  obtain ⟨a, ha⟩ := h.tracked.done u hmem
  exact ⟨a, Option.some.inj (hu.symm.trans ha)⟩

/-- **The turns of a unit follow its work** to the end. -/
theorem leads_turns (h : Orderly signals s) (hu : s.works[u]? = some w) :
    ∃ a, (s.run machine signals backendOf).works[u]? = some (.done a)
      ∧ Turn.Leads machine signals w (Turn.ofUnit u (s.turns machine signals backendOf))
        (.done a) := by
  induction s using Schedule.run.induct machine signals backendOf generalizing w with
  | case1 s hs =>
    obtain ⟨a, rfl⟩ := h.done_of_end hs hu
    rw [run_of_next?_eq_none hs, turns_of_next?_eq_none hs]
    exact ⟨a, hu, .refl _⟩
  | case2 s s' hs ih =>
    rw [run_of_next?_eq_some hs]
    rcases next_cases h.tracked hs with ⟨t, htaken, hturns⟩ | ⟨hclosed, hturns⟩
    · rw [hturns]
      by_cases hunit : t.unit = u
      · subst hunit
        obtain rfl := Option.some.inj (htaken.work.symm.trans hu)
        have hlt : t.unit < s.works.length := (List.getElem?_eq_some_iff.1 hu).1
        have hu' : s'.works[t.unit]? = some t.after := by
          rw [htaken.works, List.getElem?_set_self hlt]
        obtain ⟨a, hend, hleads⟩ := ih (h.next hs) hu'
        refine ⟨a, hend, ?_⟩
        rw [Turn.ofUnit, List.filter_cons_of_pos (by simp)]
        exact .turn rfl htaken.made hleads
      · have hu' : s'.works[u]? = some w := by rw [htaken.works, List.getElem?_set_ne hunit, hu]
        rw [Turn.ofUnit, List.filter_cons_of_neg (by simpa using hunit)]
        exact ih (h.next hs) hu'
    · rw [hturns]
      exact ih (h.next hs) (hclosed.works ▸ hu)

/-- A schedule keeps its units. -/
theorem length_works_run (h : Orderly signals s) :
    (s.run machine signals backendOf).works.length = s.works.length := by
  induction s using Schedule.run.induct machine signals backendOf with
  | case1 s hs => rw [run_of_next?_eq_none hs]
  | case2 s s' hs ih =>
    rw [run_of_next?_eq_some hs, ih (h.next hs)]
    rcases next_cases h.tracked hs with ⟨t, htaken, -⟩ | ⟨hclosed, -⟩
    · rw [htaken.works, List.length_set]
    · rw [hclosed.works]

/-- A unit that has ended takes no more turns. -/
theorem ne_of_done (h : Orderly signals s) {a : α} (hu : s.works[u]? = some (.done a)) :
    ∀ t ∈ s.turns machine signals backendOf, t.unit ≠ u := by
  intro t ht hunit
  obtain ⟨b, -, hleads⟩ : ∃ b, _ ∧ Turn.Leads machine signals (.done a)
    (Turn.ofUnit u (s.turns machine signals backendOf)) (.done b) := h.leads_turns hu
  have hmem := Turn.mem_ofUnit.2 ⟨ht, hunit⟩
  rw [(Turn.Leads.of_done hleads).1] at hmem
  exact absurd hmem List.not_mem_nil

/-- All turns of a unit are made on its backend. -/
theorem backend_turns (h : Orderly signals s) :
    ∀ t ∈ s.turns machine signals backendOf, t.backend = backendOf t.unit := by
  induction s using Schedule.run.induct machine signals backendOf with
  | case1 s hs =>
    rw [turns_of_next?_eq_none hs]
    exact List.forall_mem_nil _
  | case2 s s' hs ih =>
    rcases next_cases h.tracked hs with ⟨t, htaken, hturns⟩ | ⟨-, hturns⟩
    · rw [hturns]
      exact List.forall_mem_cons.2 ⟨htaken.backend, ih (h.next hs)⟩
    · rw [hturns]
      exact ih (h.next hs)

/-- The turns of a schedule are made in the order of time. -/
theorem pairwise_turns (h : Orderly signals s) :
    (s.turns machine signals backendOf).Pairwise fun t t' => t.instant ≤ t'.instant := by
  induction s using Schedule.run.induct machine signals backendOf with
  | case1 s hs =>
    rw [turns_of_next?_eq_none hs]
    exact .nil
  | case2 s s' hs ih =>
    have hlater := h.next hs
    rcases next_cases h.tracked hs with ⟨t, htaken, hturns⟩ | ⟨-, hturns⟩
    · rw [hturns]
      refine List.pairwise_cons.2 ⟨fun t' ht' => ?_, ih hlater⟩
      rw [← htaken.now]
      exact (instant_turns s' hlater.tracked hlater.timely t' ht').1
    · rw [hturns]
      exact ih hlater

end Orderly

end Schedule

end RegistryFleet
