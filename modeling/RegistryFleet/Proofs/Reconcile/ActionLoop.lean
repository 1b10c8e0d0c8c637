import RegistryFleet.Reconcile.Unit

/-!
# Proofs/Reconcile/ActionLoop — the loop over actions, whatever it is met with

The loop asks for interruptions, performs actions and carries out effects. Here all three are
**surroundings** that may answer anything at any time, and a record is kept of what was asked and
answered. The actions fall into two parts: those that were **tried**, one attempt each, and those
that were left.

* `Attempt` — what becomes of an action that is tried, and from it what is recorded and reported.
* `Surroundings.tries` — one attempt, and `Surroundings.loop_open` all of them.
* `Surroundings.loop_exact` — the results and the record of the whole loop.
* `Work.against_actions` — the actions of a unit, met with any answers, are such a loop.
-/

namespace RegistryFleet

variable {σ α β : Type}

/-! ## Surroundings with a record -/

/-- **What the loop is met with**: a state of any kind, and any answers. -/
structure Surroundings (σ : Type) where
  interrupted : StateM σ (Option Interruption)
  perform : Action → StateM σ (Except Error Effect)
  settle : Effect → StateM σ (Except Error Unit)

/-- What the loop asked its surroundings, with the answer. -/
inductive LoopEvent
  | asked (answer : Option Interruption)
  | performed (a : Action) (outcome : Except Error Effect)
  | settled (e : Effect) (outcome : Except Error Unit)

/-- What the loop asked, in order. -/
abbrev LoopRecord : Type := List LoopEvent

namespace Surroundings

/-- Puts an answer into the record. -/
def noting (x : StateM σ α) (event : α → LoopEvent) : StateM (σ × LoopRecord) α := fun (w, log) =>
  let (a, w) := x.run w
  (a, w, log ++ [event a])

theorem noting_bind (x : StateM σ α) (event : α → LoopEvent)
    (f : α → StateM (σ × LoopRecord) β) (w : σ) (log : LoopRecord) :
    (noting x event >>= f) (w, log) = f (x w).1 ((x w).2, log ++ [event (x w).1]) := rfl

/-- The surroundings with a record of what they were asked. -/
def recorded (S : Surroundings σ) : Surroundings (σ × LoopRecord) where
  interrupted := noting S.interrupted .asked
  perform a := noting (S.perform a) (.performed a)
  settle e := noting (S.settle e) (.settled e)

/-- One action in the surroundings. -/
def step (S : Surroundings σ) (dry : Bool) (s : Progress) (a : Action) :
    StateM σ (ActionResult × Progress) :=
  runAction S.interrupted S.perform S.settle dry s a

/-- **The loop in the surroundings.** -/
def loop (S : Surroundings σ) (dry : Bool) (s : Progress) (actions : List Action) :
    StateM σ (List ActionResult) :=
  runActions S.interrupted S.perform S.settle dry s actions

end Surroundings

/-! ## Attempts -/

/-- **What becomes of an action that is tried.** -/
inductive Attempt
  /-- It is not performed. -/
  | spared
  | failed (err : Error)
  | performed (e : Effect) (settled : Except Error Unit)

namespace Attempt

/-- What is asked. -/
def events (a : Action) : Attempt → LoopRecord
  | spared => [.asked none]
  | failed err => [.asked none, .performed a (.error err)]
  | performed e settled => [.asked none, .performed a (.ok e), .settled e settled]

/-- What is reported. -/
def result (dry : Bool) (a : Action) : Attempt → ActionResult
  | spared =>
    .plain a.description
      (if dry then .planned else .skipped "removing the previous binding failed")
  | failed err =>
    .plain a.description (if err.isCapabilityGap then .skipped err.message else .failed err.message)
  | performed e settled => ⟨a.description, .succeeded, .ofOutcome e settled⟩

/-- Is it a wrong configuration, of the action or of its effect? -/
def isFatal : Attempt → Bool
  | spared | performed _ (.ok ()) => false
  | failed err | performed _ (.error err) => err.isFatal

/-- The attempt to unbind a member failed, and not for a capability that is missing. -/
def Leaves (name : String) (a : Action) (t : Attempt) : Prop :=
  a.unbound? = some name ∧ ∃ err, t = failed err ∧ err.isCapabilityGap = false

/-- What the loop remembers after the attempt. -/
def after (s : Progress) (a : Action) : Attempt → Progress
  | spared => s
  | failed err => (failureOutcome s a err).2
  | performed e settled => (effectOutcome s a e settled).2

variable {dry : Bool} {s : Progress} {a : Action} {name : String}

theorem description_result (t : Attempt) : (t.result dry a).description = a.description := by
  cases t <;> rfl

/-- An action that is tried is not reported as not started. -/
theorem status_result_ne (t : Attempt) : (t.result dry a).status ≠ .notStarted := by
  cases t with
  | spared => cases dry <;> simp [result, ActionResult.plain]
  | failed err => cases hgap : err.isCapabilityGap <;> simp [result, ActionResult.plain, hgap]
  | performed e settled => simp [result]

/-- A wrong configuration ends the unit. -/
theorem halted_after (t : Attempt) : (t.after s a).halted = (s.halted || t.isFatal) := by
  cases t with
  | spared => simp [after, isFatal]
  | failed err =>
    cases err <;> simp [after, failureOutcome, isFatal, Error.isCapabilityGap, Error.isFatal]
  | performed e settled => cases settled <;> simp [after, effectOutcome, isFatal]

/-- A member whose unbinding failed is remembered. -/
theorem mem_stuck_after (t : Attempt) :
    name ∈ (t.after s a).stuck ↔ t.Leaves name a ∨ name ∈ s.stuck := by
  cases t with
  | failed err =>
    cases hgap : err.isCapabilityGap <;> simp [after, failureOutcome, Leaves, hgap]
  | spared => simp [after, Leaves]
  | performed e settled => simp [after, effectOutcome, Leaves]

theorem failureOutcome_eq (dry : Bool) (err : Error) :
    failureOutcome s a err = ((failed err).result dry a, (failed err).after s a) := by
  cases hgap : err.isCapabilityGap <;> simp [failureOutcome, result, after, hgap]

end Attempt

/-! ## One step -/

namespace Surroundings

variable {S : Surroundings σ} {dry : Bool} {s : Progress} {a : Action} {w : σ}

theorem step_halted (hs : s.halted = true) :
    S.step dry s a = pure (.plain a.description .notStarted, s) := by
  rw [step, runAction, if_pos hs]

/-- An action that is performed fails, or has an effect that is carried out. -/
theorem performs (S : Surroundings σ) (dry : Bool) (s : Progress) (a : Action) (w : σ)
    (log : LoopRecord) : ∃ (t : Attempt) (w' : σ),
    (noting (S.perform a) (.performed a) >>= fun
        | .ok e => noting (S.settle e) (.settled e) >>= fun out => pure (effectOutcome s a e out)
        | .error err => pure (failureOutcome s a err)) (w, log ++ [.asked none])
      = ((t.result dry a, t.after s a), w', log ++ t.events a) ∧ t ≠ .spared := by
  obtain ⟨outcome, w₁, hperformed⟩ : ∃ outcome w₁, S.perform a w = (outcome, w₁) := ⟨_, _, rfl⟩
  rw [noting_bind, hperformed, List.append_assoc]
  cases outcome with
  | error err =>
    refine ⟨.failed err, w₁, ?_, nofun⟩
    change (failureOutcome s a err, w₁, log ++ _) = _
    rw [Attempt.failureOutcome_eq dry]
    rfl
  | ok e =>
    refine ⟨.performed e (S.settle e w₁).1, (S.settle e w₁).2, ?_, nofun⟩
    change (effectOutcome s a e (S.settle e w₁).1, (S.settle e w₁).2, log ++ _ ++ [_]) = _
    rw [List.append_assoc]
    rfl

/-- **One attempt.** Where the loop has not ended, it asks first. If it is told of an interruption,
the action is not started. Else the action is tried: it is spared in a dry run, or if it binds a
member whose unbinding failed, and only then. -/
theorem tries (S : Surroundings σ) (dry : Bool) (a : Action) (hs : s.halted = false) (w : σ)
    (log : LoopRecord) :
    (∃ i w', S.recorded.step dry s a (w, log)
        = ((.plain a.description .notStarted, { s with halted := true }), w',
            log ++ [.asked (some i)]))
      ∨ ∃ (t : Attempt) (w' : σ), S.recorded.step dry s a (w, log)
          = ((t.result dry a, t.after s a), w', log ++ t.events a)
        ∧ (t = .spared ↔ dry = true ∨ s.blocks a = true) := by
  obtain ⟨answer, w₁, hasked⟩ : ∃ answer w₁, S.interrupted w = (answer, w₁) := ⟨_, _, rfl⟩
  have hopen : ¬ s.halted = true := by simp [hs]
  cases answer with
  | some i =>
    refine .inl ⟨i, w₁, ?_⟩
    rw [step, runAction, if_neg hopen]
    change (noting S.interrupted .asked >>= _) (w, log) = _
    rw [noting_bind, hasked]
    rfl
  | none =>
    have hstep : S.recorded.step dry s a (w, log)
        = (if dry then pure (.plain a.description .planned, s)
          else if s.blocks a then
            pure (.plain a.description (.skipped "removing the previous binding failed"), s)
          else noting (S.perform a) (.performed a) >>= fun
            | .ok e => noting (S.settle e) (.settled e) >>= fun out => pure (effectOutcome s a e out)
            | .error err => pure (failureOutcome s a err)) (w₁, log ++ [.asked none]) := by
      rw [step, runAction, if_neg hopen]
      change (noting S.interrupted .asked >>= _) (w, log) = _
      rw [noting_bind, hasked]
      rfl
    rw [hstep]
    refine .inr ?_
    cases dry with
    | true => exact ⟨.spared, w₁, rfl, by simp⟩
    | false =>
      cases hblocks : s.blocks a with
      | true => exact ⟨.spared, w₁, rfl, by simp⟩
      | false =>
        obtain ⟨t, w₂, hperforms, ht⟩ := performs S false s a w₁ log
        exact ⟨t, w₂, hperforms, by simp [ht]⟩

end Surroundings

/-! ## The loop -/

/-- An action that was tried, and what became of it. -/
abbrev Tried : Type := Action × Attempt

namespace Tried

/-- What was asked for the action. -/
def events (x : Tried) : LoopRecord := x.2.events x.1

/-- What is reported of the action. -/
def result (dry : Bool) (x : Tried) : ActionResult := x.2.result dry x.1

end Tried

/-- What is reported of an action that was left. -/
def Action.left (a : Action) : ActionResult := .plain a.description .notStarted

/-- **How the loop went**, from what it remembered before. -/
structure LoopCourse (dry : Bool) (s : Progress) (tried : List Tried) (stop : Option Interruption)
    (rest : List Action) : Prop where
  /-- What is tried is spared in a dry run, or if it binds a member that an attempt has left. -/
  spared_iff : ∀ front a t back, tried = front ++ (a, t) :: back →
    (t = .spared ↔ dry = true ∨ ∃ name, a.bound? = some name
      ∧ (name ∈ s.stuck ∨ ∃ x ∈ front, x.2.Leaves name x.1))
  /-- Once the unit has been ended, nothing is tried and nothing asked. -/
  ended : s.halted = true → tried = [] ∧ stop = none
  /-- A wrong configuration is the last that is met with. -/
  fatal : ∀ front x back, tried = front ++ x :: back → x.2.isFatal = true → back = [] ∧ stop = none
  /-- An interruption leaves an action. -/
  stopped : stop ≠ none → rest ≠ []
  /-- Nothing else leaves one. -/
  left : rest ≠ [] → s.halted = true ∨ stop ≠ none ∨ ∃ x ∈ tried, x.2.isFatal = true

namespace LoopCourse

variable {dry : Bool} {s : Progress} {a : Action} {t : Attempt} {tried : List Tried}
  {stop : Option Interruption} {rest : List Action}

/-- A loop that tries nothing, because there is nothing to do or the unit has been ended. -/
theorem idle (h : rest ≠ [] → s.halted = true) : LoopCourse dry s [] none rest where
  spared_iff front a t back he := by simp at he
  ended _ := ⟨rfl, rfl⟩
  fatal front x back he := by simp at he
  stopped h := absurd rfl h
  left hrest := .inl (h hrest)

/-- A loop that is interrupted before an action. -/
theorem interrupted (hs : s.halted = false) (i : Interruption) (a : Action) (rest : List Action) :
    LoopCourse dry s [] (some i) (a :: rest) where
  spared_iff front b t back he := by simp at he
  ended h := by simp [hs] at h
  fatal front x back he := by simp at he
  stopped _ := List.cons_ne_nil a rest
  left _ := .inr (.inl (Option.some_ne_none i))

theorem blocks_iff : s.blocks a = true ↔ ∃ name, a.bound? = some name ∧ name ∈ s.stuck := by
  unfold Progress.blocks
  cases a.bound? <;> simp

/-- One more action in front. -/
theorem cons (hs : s.halted = false) (ht : t = .spared ↔ dry = true ∨ s.blocks a = true)
    (h : LoopCourse dry (t.after s a) tried stop rest) :
    LoopCourse dry s ((a, t) :: tried) stop rest where
  spared_iff front b u back he := by
    obtain ⟨rfl, hx⟩ | ⟨front, rfl, htail⟩ := List.cons_eq_append_iff.1 he
    · obtain ⟨hhead, -⟩ := List.cons.inj hx
      obtain ⟨rfl, rfl⟩ := Prod.mk.inj hhead
      simpa [blocks_iff] using ht
    · rw [h.spared_iff front b u back htail]
      simp [Attempt.mem_stuck_after, or_assoc, or_left_comm]
  ended hhalted := by simp [hs] at hhalted
  fatal front x back he hx := by
    obtain ⟨rfl, hhead⟩ | ⟨front, rfl, htail⟩ := List.cons_eq_append_iff.1 he
    · obtain ⟨rfl, rfl⟩ := List.cons.inj hhead
      exact h.ended (by simp [Attempt.halted_after, hx])
    · exact h.fatal front x back htail hx
  stopped := h.stopped
  left hrest := by
    rcases h.left hrest with hhalted | hstop | ⟨x, hx, hfatal⟩
    · rw [Attempt.halted_after, hs, Bool.false_or] at hhalted
      exact .inr (.inr ⟨(a, t), List.mem_cons_self, hhalted⟩)
    · exact .inr (.inl hstop)
    · exact .inr (.inr ⟨x, List.mem_cons_of_mem _ hx, hfatal⟩)

end LoopCourse

namespace Surroundings

variable {S : Surroundings σ} {dry : Bool} {s : Progress}

/-- The record of a loop. -/
def recordOf (tried : List Tried) (stop : Option Interruption) : LoopRecord :=
  tried.flatMap Tried.events ++ stop.toList.map fun i => .asked (some i)

theorem loop_cons (a : Action) (rest : List Action) (w : σ) :
    S.loop dry s (a :: rest) w
      = ((S.step dry s a w).1.1 :: (S.loop dry (S.step dry s a w).1.2 rest (S.step dry s a w).2).1,
          (S.loop dry (S.step dry s a w).1.2 rest (S.step dry s a w).2).2) := rfl

/-- A loop whose unit has been ended leaves every action. -/
theorem loop_halted (hs : s.halted = true) : ∀ (actions : List Action) (w : σ),
    S.loop dry s actions w = (actions.map Action.left, w)
  | [], _ => rfl
  | a :: rest, w => by
      have hfirst : S.step dry s a w = ((a.left, s), w) := by rw [step_halted hs]; rfl
      have hrest := loop_halted hs rest w
      rw [loop_cons, hfirst, hrest]
      rfl

/-- **The loop goes its course**: each action is tried or left. -/
theorem loop_course (S : Surroundings σ) (dry : Bool) :
    ∀ (actions : List Action) (s : Progress) (w : σ) (log : LoopRecord), ∃ tried stop rest w',
      S.recorded.loop dry s actions (w, log)
        = (tried.map (Tried.result dry) ++ rest.map Action.left, w', log ++ recordOf tried stop)
      ∧ actions = tried.map Prod.fst ++ rest
      ∧ LoopCourse dry s tried stop rest
  | [], s, w, log => ⟨[], none, [], w, by simp [recordOf]; rfl, rfl, .idle fun h => absurd rfl h⟩
  | a :: actions, s, w, log => by
      cases hs : s.halted with
      | true =>
        exact ⟨[], none, a :: actions, w, by simp [recordOf, loop_halted hs], rfl,
          .idle fun _ => hs⟩
      | false =>
        rcases tries S dry a hs w log with
          ⟨i, w', hstep⟩ | ⟨t, w', hstep, hspared⟩
        · refine ⟨[], some i, a :: actions, w', ?_, rfl, .interrupted hs i a actions⟩
          rw [loop_cons, hstep]
          simp [recordOf, loop_halted, Action.left]
        · obtain ⟨tried, stop, rest, w'', hrest, rfl, hcourse⟩ :=
            loop_course S dry actions (t.after s a) w' (log ++ t.events a)
          refine ⟨(a, t) :: tried, stop, rest, w'', ?_, rfl, hcourse.cons hs hspared⟩
          rw [loop_cons, hstep]
          simp [hrest, recordOf, Tried.result, Tried.events]

/-- **The loop is exact**, whatever it is met with. Its actions fall into those that are tried and
those that are left, in this order; each has one result, under its own description, and the actions
that are left are the ones reported as not started. The record holds the attempts in order, and
behind them, if the loop was stopped, one interruption. So an action is performed once or not at
all: it is spared in a dry run, where it is planned; else it is spared just if it binds a member
whose unbinding was performed earlier and failed other than for a missing capability. Actions are
left for an interruption, or behind a wrong configuration, and for nothing else; and nothing is
tried or asked behind either. -/
theorem loop_exact (S : Surroundings σ) (dry : Bool) (actions : List Action) (w : σ) :
    ∃ (tried : List Tried) (stop : Option Interruption) (rest : List Action) (w' : σ),
      runActions S.recorded.interrupted S.recorded.perform S.recorded.settle dry .start actions
          (w, [])
        = (tried.map (Tried.result dry) ++ rest.map (fun a => .plain a.description .notStarted), w',
            tried.flatMap Tried.events ++ stop.toList.map fun i => .asked (some i))
      ∧ actions = tried.map Prod.fst ++ rest
      ∧ (∀ x ∈ tried, (x.result dry).description = x.1.description
          ∧ (x.result dry).status ≠ .notStarted)
      ∧ (∀ front a t back, tried = front ++ (a, t) :: back →
          (t = .spared ↔ dry = true
            ∨ ∃ name, a.bound? = some name ∧ ∃ x ∈ front, x.2.Leaves name x.1))
      ∧ (∀ front x back, tried = front ++ x :: back → x.2.isFatal = true →
          back = [] ∧ stop = none)
      ∧ (stop ≠ none → rest ≠ [])
      ∧ (rest ≠ [] → stop ≠ none ∨ ∃ x ∈ tried, x.2.isFatal = true) := by
  obtain ⟨tried, stop, rest, w', hloop, hactions, hcourse⟩ :=
    loop_course S dry actions .start w []
  refine ⟨tried, stop, rest, w', hloop, hactions,
    fun x _ => ⟨x.2.description_result, x.2.status_result_ne⟩, fun front a t back he => ?_,
    hcourse.fatal, hcourse.stopped, fun hrest => (hcourse.left hrest).resolve_left nofun⟩
  simpa [Progress.start] using hcourse.spared_iff front a t back he

end Surroundings

/-! ## The actions of a unit -/

section

variable {m n : Type → Type} [Monad m] [Monad n] {φ : ∀ {α : Type}, m α → n α}
  {interrupted : m (Option Interruption)} {perform : Action → m (Except Error Effect)}
  {settle : Effect → m (Except Error Unit)} {dry : Bool}

/-- One action is the same under a map that keeps sequences. -/
theorem map_runAction (hpure : ∀ {α : Type} (a : α), φ (pure a) = pure a)
    (hbind : ∀ {α β : Type} (x : m α) (f : α → m β), φ (x >>= f) = φ x >>= fun a => φ (f a))
    (s : Progress) (a : Action) :
    φ (runAction interrupted perform settle dry s a)
      = runAction (φ interrupted) (fun a => φ (perform a)) (fun e => φ (settle e)) dry s a := by
  unfold runAction
  split
  · exact hpure _
  · refine (hbind _ _).trans (congrArg _ (funext fun answer => ?_))
    cases answer with
    | some i => exact hpure _
    | none =>
      dsimp only
      split
      · exact hpure _
      · split
        · exact hpure _
        · refine (hbind _ _).trans (congrArg _ (funext fun outcome => ?_))
          cases outcome with
          | error err => exact hpure _
          | ok e => exact (hbind _ _).trans (congrArg _ (funext fun out => hpure _))

/-- The loop is the same under a map that keeps sequences. -/
theorem map_runActions (hpure : ∀ {α : Type} (a : α), φ (pure a) = pure a)
    (hbind : ∀ {α β : Type} (x : m α) (f : α → m β), φ (x >>= f) = φ x >>= fun a => φ (f a)) :
    ∀ (actions : List Action) (s : Progress),
      φ (runActions interrupted perform settle dry s actions)
        = runActions (φ interrupted) (fun a => φ (perform a)) (fun e => φ (settle e)) dry s actions
  | [], _ => hpure []
  | a :: rest, s => by
      refine (hbind _ _).trans ?_
      rw [map_runAction hpure hbind, runActions]
      refine congrArg _ (funext fun r => (hbind _ _).trans ?_)
      rw [map_runActions hpure hbind rest r.2]
      exact congrArg _ (funext fun rs => hpure _)

end

/-- **What the work of a unit is met with**: an answer for every node. -/
structure Answers (σ : Type) where
  interrupted : StateM σ (Option Interruption)
  call : (c : Call) → StateM σ c.Answer
  observe : (c : Call) → StateM σ (Except Interruption c.Answer)
  settle : Effect → StateM σ (Except Error Unit)

namespace Work

/-- The work of a unit, met with answers. -/
def against (A : Answers σ) : Work α → StateM σ α
  | .done a => pure a
  | .check next => A.interrupted >>= fun i => against A (next i)
  | .call c next => A.call c >>= fun answer => against A (next answer)
  | .observe c next => A.observe c >>= fun answer => against A (next answer)
  | .settle e next => A.settle e >>= fun out => against A (next out)

theorem against_bind (A : Answers σ) (x : Work α) (f : α → Work β) :
    (x >>= f).against A = x.against A >>= fun a => (f a).against A := by
  change (x.bind f).against A = _
  induction x with
  | done a => rfl
  | check next ih => exact congrArg (A.interrupted >>= ·) (funext ih)
  | call c next ih => exact congrArg (A.call c >>= ·) (funext ih)
  | observe c next ih => exact congrArg (A.observe c >>= ·) (funext ih)
  | settle e next ih => exact congrArg (A.settle e >>= ·) (funext ih)

/-- **The actions of a unit are a loop**, whose surroundings perform an action by its calls. -/
theorem against_actions (A : Answers σ) (p : Profile) (dry : Bool) (actions : List Action) :
    (Work.actions p dry actions).against A
      = (Surroundings.mk A.interrupted (fun a => (acting (a.perform p)).against A) A.settle).loop
          dry .start actions :=
  map_runActions (fun _ => rfl) (against_bind A) actions .start

end Work

end RegistryFleet
