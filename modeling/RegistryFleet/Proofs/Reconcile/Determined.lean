import RegistryFleet.Proofs.Reconcile.InTurn
import RegistryFleet.Proofs.Reconcile.MemberPhase
import RegistryFleet.Proofs.Reconcile.ProjectPhase

/-!
# Proofs/Reconcile/Determined — what a unit does is settled by what it sees

A unit may be answered differently in two interleavings of its phase: the password of a robot counts
the robots that other units have created before, and what becomes of a file depends on the files of
the others. Neither decides what the unit does next. What is **read** of a unit — its actions and
their status — and what it sees at its end follow from what it sees at its start.

* `Division.Determined` — so for a piece of work; `Division.determined_runActions` for the loop over
  actions, of which each is `Division.Decided`.
* `Division.interleavings_agree` — interleavings of determined units, from worlds in which they see
  the same, end with the same readings in worlds in which they see the same.
* `World.determined_projectUnit`, `World.determined_memberUnit` — the units of a run are determined.
-/

namespace RegistryFleet

/-! ## What is compared -/

/-- **What is read of the result of an action**: all but its effect. -/
def ActionResult.deed (r : ActionResult) : String × ActionStatus := (r.description, r.status)

/-- What is read of an action in the loop: its result, and what the loop remembers of it. -/
def outcomeDeed (r : ActionResult × Progress) : (String × ActionStatus) × Progress :=
  (r.1.deed, r.2)

/-- **What is read of the result of a unit**: whose it is, and the status of each of its actions. -/
structure Deeds where
  registry : String
  project : Option String
  actions : List (String × ActionStatus)
  deriving DecidableEq

/-- What is read of the result of a unit. -/
def UnitResult.deeds (r : UnitResult) : Deeds :=
  ⟨r.registry, r.project, r.actions.map ActionResult.deed⟩

/-- An effect ends the unit just if it has no place to be carried out; what else becomes of it does
not show. -/
theorem effectOutcome_applied (s : Progress) (a : Action) (directory : Option CredentialDirectory)
    (e : Effect) (files : Files) :
    outcomeDeed (effectOutcome s a e (e.applied directory files).1)
      = ((a.description, .succeeded),
          { s with halted := s.halted || (directory.isNone && !e.isNone) }) := by
  cases directory with
  | none => cases e <;> rfl
  | some d =>
    generalize hout : (e.applied (some d) files).1 = out
    cases out with
    | ok _ => rfl
    | error err =>
      have hfatal := Effect.isFatal_of_applied hout
      simp only [outcomeDeed, effectOutcome, hfatal, Option.isNone_some, Bool.false_and]
      rfl

namespace Division

variable {ω V α β : Type} {d : Division ω V} {u : Nat} {I : V → Prop}

/-! ## Determined work -/

/-- **What comes of a piece of work is settled by what the unit sees**: what is read of its value,
and what the unit sees after it, which are as `I` says. -/
def Determined (d : Division ω V) (u : Nat) (I : β → V → Prop) (read : α → β) (w : Work α)
    (v : V) : Prop :=
  ∃ b v', I b v' ∧ d.Secure u True (fun a x => read a = b ∧ x = v') w v

/-- **What comes of an action is settled**, its effect included, by what the unit sees, from a view
of the kind `I` to another. -/
def Decided (d : Division ω V) (u : Nat) (I : V → Prop)
    (perform : Action → Work (Except Error Effect)) (a : Action) : Prop :=
  ∀ s v, I v → ∃ b v', I v'
    ∧ d.Secure u True (d.Settles u s a fun r x => outcomeDeed r = b ∧ x = v') (perform a) v

/-- In a calm run a question for interruptions is answered by none. -/
theorem Determined.check {J : β → V → Prop} {read : α → β}
    {next : Option Interruption → Work α} {v : V} (h : d.Determined u J read (next none) v) :
    d.Determined u J read (.check next) v := by
  obtain ⟨b, v', hv', hsecure⟩ := h
  refine ⟨b, v', hv', fun i hi => ?_⟩
  rw [hi trivial]
  exact hsecure

variable {perform : Action → Work (Except Error Effect)} {dry : Bool} {v : V}

theorem determined_runAction {s : Progress} {a : Action} (hv : I v)
    (ha : dry = false → d.Decided u I perform a) :
    d.Determined u (fun _ => I) outcomeDeed
      (runAction Work.interrupted perform Work.settling dry s a) v := by
  unfold runAction
  split
  · exact ⟨_, v, hv, rfl, rfl⟩
  · refine Determined.check ?_
    change d.Determined u (fun _ => I) _ (ite _ _ _) v
    split
    · exact ⟨_, v, hv, rfl, rfl⟩
    · next hdry =>
      split
      · exact ⟨_, v, hv, rfl, rfl⟩
      · obtain ⟨b, v', hv', hsecure⟩ := ha (by simpa using hdry) s v hv
        refine ⟨b, v', hv', Secure.bind (hsecure.mono fun r x hr => ?_)⟩
        cases r with
        | ok e => exact hr
        | error err => exact hr

/-- **The loop over the actions**, where each is decided. -/
theorem determined_runActions : ∀ {actions : List Action} {s : Progress} {v : V}, I v →
    (dry = false → ∀ a ∈ actions, d.Decided u I perform a) →
      d.Determined u (fun _ => I) (List.map ActionResult.deed)
        (runActions Work.interrupted perform Work.settling dry s actions) v
  | [], _, v, hv, _ => ⟨[], v, hv, rfl, rfl⟩
  | a :: rest, s, v, hv, hactions => by
      obtain ⟨⟨deed, s'⟩, v', hv', hfirst⟩ := determined_runAction (s := s) hv fun hdry =>
        hactions hdry a List.mem_cons_self
      obtain ⟨deeds, v'', hv'', hrest⟩ := determined_runActions (s := s') hv' fun hdry b hb =>
        hactions hdry b (List.mem_cons_of_mem a hb)
      refine ⟨deed :: deeds, v'', hv'', Secure.bind (hfirst.mono ?_)⟩
      rintro r x ⟨hr, rfl⟩
      obtain ⟨hdeed, rfl⟩ := Prod.mk.inj hr
      refine Secure.bind (hrest.mono ?_)
      rintro rs y ⟨hrs, rfl⟩
      exact ⟨by rw [List.map_cons, hdeed, hrs], rfl⟩

/-! ## Interleavings agree -/

variable {Q : Nat → α → V → Prop} {J : Nat → β → V → Prop} {jobs : List (Job α)} {read : α → β}

/-- What holds of each unit by itself holds at the end of every interleaving. -/
theorem interleaves_secure {before after : ω} {values : List α}
    (hbackend : d.backendOf = Job.backendOf jobs) (hunits : d.units = jobs.length)
    (hsound : d.sound before)
    (heach : ∀ u job, jobs[u]? = some job → d.Secure u True (Q u) job.work (d.view u before))
    (h : d.machine.Interleaves jobs before values after) :
    values.length = jobs.length ∧ d.sound after
      ∧ ∀ u a, values[u]? = some a → Q u a (d.view u after) := by
  rw [Machine.Interleaves, ← hbackend] at h
  have hend : d.Secured True Q (values.map Work.done) after :=
    Secured.steps (s := (jobs.map Job.work, before)) (secured_start hunits hsound heach) h
  refine ⟨?_, hend.sound, fun u a ha => hend.each u (.done a) ?_⟩
  · rw [← hunits, ← hend.units, List.length_map]
  · rw [List.getElem?_map, ha]
    rfl

/-- **Interleavings of determined units agree** — from worlds in which each unit sees the same they
end with the same readings, in worlds in which each unit sees the same. -/
theorem interleavings_agree {before₁ before₂ after₁ after₂ : ω} {values₁ values₂ : List α}
    (hbackend : d.backendOf = Job.backendOf jobs) (hunits : d.units = jobs.length)
    (hsound₁ : d.sound before₁) (hsound₂ : d.sound before₂)
    (hviews : ∀ u job, jobs[u]? = some job → d.view u before₁ = d.view u before₂)
    (heach : ∀ u job, jobs[u]? = some job → d.Determined u (J u) read job.work (d.view u before₁))
    (h₁ : d.machine.Interleaves jobs before₁ values₁ after₁)
    (h₂ : d.machine.Interleaves jobs before₂ values₂ after₂) :
    values₁.map read = values₂.map read ∧ d.sound after₁ ∧ d.sound after₂
      ∧ (∀ u < jobs.length, d.view u after₁ = d.view u after₂)
      ∧ ∀ u a, values₁[u]? = some a → J u (read a) (d.view u after₁) := by
  choose b v' hJ hsecure using heach
  -- What each unit is determined to come to, by its number.
  let Q : Nat → α → V → Prop := fun u a x => ∀ job (hjob : jobs[u]? = some job),
    read a = b u job hjob ∧ x = v' u job hjob
  have hQ : ∀ u job, jobs[u]? = some job → d.Secure u True (Q u) job.work (d.view u before₁) :=
    fun u job hjob => (hsecure u job hjob).mono fun a x h job' hjob' => by
      obtain rfl := Option.some.inj (hjob.symm.trans hjob')
      exact h
  obtain ⟨hlength₁, hafter₁, hend₁⟩ := interleaves_secure hbackend hunits hsound₁ hQ h₁
  obtain ⟨hlength₂, hafter₂, hend₂⟩ := interleaves_secure hbackend hunits hsound₂
    (fun u job hjob => hviews u job hjob ▸ hQ u job hjob) h₂
  refine ⟨?_, hafter₁, hafter₂, fun u hu => ?_, fun u a ha => ?_⟩
  · refine List.ext_getElem (by simp [hlength₁, hlength₂]) fun u hu₁ hu₂ => ?_
    rw [List.length_map] at hu₁ hu₂
    have hjob := List.getElem?_eq_getElem (show u < jobs.length by omega)
    rw [List.getElem_map, List.getElem_map,
      (hend₁ u _ (List.getElem?_eq_getElem hu₁) _ hjob).1,
      (hend₂ u _ (List.getElem?_eq_getElem hu₂) _ hjob).1]
  · have hjob := List.getElem?_eq_getElem hu
    rw [(hend₁ u _ (List.getElem?_eq_getElem (show u < values₁.length by omega)) _ hjob).2,
      (hend₂ u _ (List.getElem?_eq_getElem (show u < values₂.length by omega)) _ hjob).2]
  · have hlt := (List.getElem?_eq_some_iff.1 ha).1
    have hjob := List.getElem?_eq_getElem (show u < jobs.length by omega)
    obtain ⟨hread, hview⟩ := hend₁ u a ha _ hjob
    rw [hread, hview]
    exact hJ u _ hjob

end Division

namespace World

variable {machine : Machine World} {backendOf : Nat → Nat} {setups : List Memory} {u i : Nat}
  {directory : Option CredentialDirectory} {files : Files} {p : Profile} {dry : Bool}
  {projects : List ProjectSpec}

/-! ## The units of the first phase -/

/-- A step towards the expected projects. -/
theorem decided_projectStep (hserve : machine.serve = serve)
    (hsettle : machine.settle = settle directory) (hu : backendOf u = u) {m₀ : Memory}
    {expected : List String} {a : Action} (ha : ProjectStep m₀ expected a) :
    (byBackend machine backendOf setups files).Decided u (fun v => ∃ m, v = some m)
      (fun a => Work.acting (a.perform p)) a := by
  rintro s v ⟨m, rfl⟩
  generalize hrun : (a.perform p).run Memory.serve m = out
  obtain ⟨r, m'⟩ := out
  cases r with
  | ok e =>
    obtain rfl := Memory.eq_none_of_run_projectStep ha hrun
    refine ⟨outcomeDeed (effectOutcome s a .none (.ok ())), some m', ⟨m', rfl⟩,
      secure_acting hserve hu ?_⟩
    rw [hrun]
    exact .ok (acts_settle_none hsettle ⟨rfl, rfl⟩)
  | error err =>
    refine ⟨outcomeDeed (failureOutcome s a err), some m', ⟨m', rfl⟩,
      secure_acting hserve hu ?_⟩
    rw [hrun]
    exact ⟨rfl, rfl⟩

/-- **The unit of a registry is determined** by its backend. -/
theorem determined_projectUnit (hserve : machine.serve = serve)
    (hsettle : machine.settle = settle directory) (hu : backendOf u = u) (m : Memory) :
    (byBackend machine backendOf setups files).Determined u
      (fun r _ => r.registry = p.registry.name ∧ r.project = none) UnitResult.deeds
      (projectUnit p projects dry) (some m) := by
  have hactions : (byBackend machine backendOf setups files).Determined u
      (fun _ v => ∃ m, v = some m) (List.map ActionResult.deed)
      (Work.actions p dry (Action.projectSteps m.projects.keys
        ((expectedOn p.registry.name projects).map ProjectSpec.name))) (some m) :=
    Division.determined_runActions ⟨m, rfl⟩ fun _ _ ha =>
      decided_projectStep hserve hsettle hu (.of_mem_steps ha)
  obtain ⟨deeds, v', -, hsecure⟩ := hactions
  refine Division.Determined.check ?_
  refine ⟨⟨p.registry.name, none, deeds⟩, v', ⟨rfl, rfl⟩, ?_⟩
  refine Division.Secure.bind (w := Work.observing (.one .listProjects)) ?_
  refine Division.Secure.observing (fun hnot => absurd trivial hnot) (acts_serve hserve hu ?_)
  refine Division.Secure.bind ?_
  change (byBackend machine backendOf setups files).Secure u True _
    (Work.actions p dry (Action.projectSteps (m.listing.map Project.name) _)) (some m)
  rw [Memory.names_listing]
  refine hsecure.mono ?_
  rintro rs x ⟨rfl, rfl⟩
  exact ⟨rfl, rfl⟩

/-! ## The units of the second phase -/

section

variable {places : List (Nat × String)} {base : World} {name : String} {m₀ : Memory}
  {o : Option Holding} {h : Holding} {b : Member}

variable (hserve : machine.serve = serve) (hplace : places[u]? = some (i, name))
  (hbackend : backendOf u = i) (hm₀ : setups[i]? = some m₀) (hnodup : places.Nodup)

include hserve hplace hbackend hm₀ hnodup

/-- An action that begins with a call about the project of the unit. -/
theorem determined_acting {α β : Type} {read : α → β} (r : β) (v' : Option Holding × Unit)
    {c : Call} {next : c.Answer → Calls α} (hc : ∀ q, c.changes = some q → q = name)
    (h : ∀ m : Memory, m.setup = m₀.setup → m.projects.get? name = o →
      (byProject machine backendOf setups places base .blank).Secure u True
        (fun a x => read a = r ∧ x = v') (Work.acting (next (Memory.serve c m).1))
        ((Memory.serve c m).2.projects.get? name, ())) :
    (byProject machine backendOf setups places base .blank).Determined u (fun _ _ => True) read
      (Work.acting (.ask c next)) (o, ()) :=
  ⟨r, v', trivial, Division.Secure.acting (acts_call hserve hplace hbackend hm₀ hnodup hc h)⟩

/-- A unit looks its project up. -/
theorem determined_lookUp {α β : Type} {read : Except Error α → β}
    {t : Project → Calls (Except Error α)}
    (ht : ∀ h, (byProject machine backendOf setups places base .blank).Determined u
      (fun _ _ => True) read (Work.acting (t (.named name))) (some h, ())) :
    (byProject machine backendOf setups places base .blank).Determined u (fun _ _ => True) read
      (Work.acting ((Action.lookUp p name).andThen t)) (o, ()) := by
  cases o with
  | some h =>
    obtain ⟨r, v', hv', hsecure⟩ := ht h
    exact ⟨r, v', hv', secure_lookUp hserve hplace hbackend hm₀ hnodup hsecure⟩
  | none =>
    refine determined_acting (c := .findProject name) hserve hplace hbackend hm₀ hnodup
      (read (.error (.recoverable ("project '" ++ name ++ "' not found on "
        ++ p.registry.name ++ ", reconcile again")))) (none, ())
      (fun _ hq => (by cases hq)) fun m _ hm => ?_
    rw [Memory.serve_findProject, hm]
    exact ⟨rfl, rfl⟩

/-- A member is bound. The password that a robot gets is not determined, that it gets one is. -/
theorem determined_assign :
    (byProject machine backendOf setups places base .blank).Determined u (fun _ _ => True)
      (Except.map Effect.isNone)
      (Work.acting ((Calls.one (.assign (.named name) b)).andThen fun generated =>
        .done (.ok (Action.bindingEffect p (.named name) b generated)))) (some h, ()) := by
  have hc : ∀ q, (Call.assign (.named name) b).changes = some q → q = name :=
    fun q hq => (Option.some.inj hq).symm
  by_cases hb : m₀.failing.contains b.name = true
  · refine determined_acting hserve hplace hbackend hm₀ hnodup (.error (Memory.rejection b))
      (some h, ()) hc fun m hsetup hm => ?_
    rw [Memory.serve_assign, Memory.failing_of_setup hsetup, if_pos hb, hm]
    exact ⟨rfl, rfl⟩
  · refine determined_acting hserve hplace hbackend hm₀ hnodup (.ok (decide (b.type ≠ .robot)))
      (some { h with members := h.members ++ [b] }, ()) hc fun m hsetup hm => ?_
    rw [Memory.serve_assign, Memory.failing_of_setup hsetup, if_neg hb, Project.named, hm]
    have hbound := Keyed.get?_insert_self m.projects name { h with members := h.members ++ [b] }
    refine ⟨congrArg Except.ok ?_, Prod.ext hbound rfl⟩
    by_cases hrobot : b.type = .robot
    · simp [hrobot, Action.bindingEffect, Effect.isNone]
    · simp [hrobot, Action.bindingEffect, Effect.isNone]

/-- A member is unbound. -/
theorem determined_unassign :
    (byProject machine backendOf setups places base .blank).Determined u (fun _ _ => True)
      (Except.map Effect.isNone)
      (Work.acting ((Calls.one (.unassign (.named name) b)).andThen fun _ =>
        .done (.ok (Action.unbindingEffect p (.named name) b)))) (some h, ()) := by
  have hc : ∀ q, (Call.unassign (.named name) b).changes = some q → q = name :=
    fun q hq => (Option.some.inj hq).symm
  by_cases hb : m₀.failing.contains b.name = true
  · refine determined_acting hserve hplace hbackend hm₀ hnodup (.error (Memory.rejection b))
      (some h, ()) hc fun m hsetup hm => ?_
    rw [Memory.serve_unassign, Memory.failing_of_setup hsetup, if_pos hb, hm]
    exact ⟨rfl, rfl⟩
  by_cases hmem : h.members.contains b = true
  · refine determined_acting hserve hplace hbackend hm₀ hnodup
      (.ok (Action.unbindingEffect p (.named name) b).isNone)
      (some { h with members := h.members.erase b }, ()) hc fun m hsetup hm => ?_
    rw [Memory.serve_unassign, Memory.failing_of_setup hsetup, if_neg hb, Project.named, hm]
    have hunbound := Keyed.get?_insert_self m.projects name
      { h with members := h.members.erase b }
    simp only [hmem, if_true]
    exact ⟨rfl, Prod.ext hunbound rfl⟩
  · refine determined_acting hserve hplace hbackend hm₀ hnodup (.error (.notFound "member" b.name))
      (some h, ()) hc fun m hsetup hm => ?_
    rw [Memory.serve_unassign, Memory.failing_of_setup hsetup, if_neg hb, Project.named, hm]
    simp only [hmem, Bool.false_eq_true, if_false, hm]
    exact ⟨rfl, rfl⟩

/-- What the backend answers to a change of a member. -/
theorem determined_memberChange (hp : p.hasMembers = true) (c : Change Member) :
    (byProject machine backendOf setups places base .blank).Determined u (fun _ _ => True)
      (Except.map Effect.isNone) (Work.acting ((Action.ofMemberChange name c).perform p))
      (o, ()) := by
  cases c with
  | add b =>
    rw [Action.ofMemberChange, Action.perform, Profile.withMembers, if_pos hp]
    exact determined_lookUp hserve hplace hbackend hm₀ hnodup fun h =>
      determined_assign hserve hplace hbackend hm₀ hnodup
  | remove b =>
    rw [Action.ofMemberChange, Action.perform, Profile.withMembers, if_pos hp]
    exact determined_lookUp hserve hplace hbackend hm₀ hnodup fun h =>
      determined_unassign hserve hplace hbackend hm₀ hnodup

/-- **A change of a member is decided**, whatever its effect meets in the files. -/
theorem decided_memberChange (hsettle : machine.settle = settle directory)
    (hp : p.hasMembers = true) (c : Change Member) :
    (byProject machine backendOf setups places base .blank).Decided u (fun _ => True)
      (fun a => Work.acting (a.perform p)) (Action.ofMemberChange name c) := by
  rintro s ⟨o, ⟨⟩⟩ -
  have hchange : (byProject machine backendOf setups places base .blank).Determined u
      (fun _ _ => True) (Except.map Effect.isNone)
      (Work.acting ((Action.ofMemberChange name c).perform p)) (o, ()) :=
    determined_memberChange hserve hplace hbackend hm₀ hnodup hp c
  obtain ⟨r, v', -, hsecure⟩ := hchange
  cases r with
  | ok quiet =>
    refine ⟨(((Action.ofMemberChange name c).description, .succeeded),
      { s with halted := s.halted || (directory.isNone && !quiet) }), v', trivial,
      hsecure.mono ?_⟩
    rintro (err | e) x ⟨hr, rfl⟩
    · cases hr
    · obtain rfl := Except.ok.inj hr
      refine .ok (acts_settle hsettle hplace hnodup
        (R := fun out _ _ => ∃ files, out = (e.applied directory files).1)
        (fun files _ => ⟨trivial, fun _ _ _ => rfl, files, rfl⟩) ?_)
      rintro out ⟨⟩ ⟨files, rfl⟩
      exact ⟨effectOutcome_applied s _ directory e files, rfl⟩
  | error err =>
    refine ⟨outcomeDeed (failureOutcome s (Action.ofMemberChange name c) err), v', trivial,
      hsecure.mono ?_⟩
    rintro (err' | e) x ⟨hr, rfl⟩
    · obtain rfl := Except.error.inj hr
      exact ⟨rfl, rfl⟩
    · cases hr

/-- The changes towards the expected members. -/
theorem determined_memberActions (hsettle : machine.settle = settle directory)
    (hp : p.hasMembers = true) {spec : ProjectSpec} (hname : spec.name = name)
    (observed : List Member) :
    (byProject machine backendOf setups places base .blank).Determined u
      (fun r _ => r.registry = p.registry.name ∧ r.project = some spec.name) UnitResult.deeds
      (memberActions p spec dry observed) (o, ()) := by
  subst hname
  have hactions : (byProject machine backendOf setups places base .blank).Determined u
      (fun _ _ => True) (List.map ActionResult.deed)
      (Work.actions p dry (Action.memberSteps spec.name observed spec.members)) (o, ()) :=
    Division.determined_runActions trivial fun _ a ha => by
      obtain ⟨c, -, rfl⟩ := List.mem_map.1 ha
      exact decided_memberChange hserve hplace hbackend hm₀ hnodup hsettle hp c
  obtain ⟨deeds, v', -, hsecure⟩ := hactions
  refine ⟨⟨p.registry.name, some spec.name, deeds⟩, v', ⟨rfl, rfl⟩, Division.Secure.bind ?_⟩
  refine hsecure.mono ?_
  rintro rs x ⟨rfl, rfl⟩
  exact ⟨rfl, rfl⟩

/-- An observation that begins with a call of a known answer. -/
theorem determined_observing {α β γ : Type} {I : γ → Option Holding × Unit → Prop}
    {read : β → γ} {c : Call} {answer : c.Answer}
    {next : c.Answer → Calls α} {f : Except Interruption α → Work β} (hc : c.changes = none)
    (hanswer : ∀ m : Memory, m.projects.get? name = o → Memory.serve c m = (answer, m))
    (h : (byProject machine backendOf setups places base .blank).Determined u I read
      ((Work.observing (next answer)).bind f) (o, ())) :
    (byProject machine backendOf setups places base .blank).Determined u I read
      ((Work.observing (.ask c next)).bind f) (o, ()) := by
  obtain ⟨r, v', hv', hsecure⟩ := h
  refine ⟨r, v', hv', ?_⟩
  rw [Work.observing]
  refine ⟨fun hnot => absurd trivial hnot, acts_call hserve hplace hbackend hm₀ hnodup
    (fun q hq => absurd (hq.symm.trans hc) (Option.some_ne_none q)) fun m _ hm => ?_⟩
  rw [hanswer m hm, hm]
  exact hsecure

/-- **The unit of a project on a registry is determined** by the project. -/
theorem determined_memberUnit (hsettle : machine.settle = settle directory) {spec : ProjectSpec}
    (hname : spec.name = name) :
    (byProject machine backendOf setups places base .blank).Determined u
      (fun r _ => r.registry = p.registry.name ∧ r.project = some spec.name) UnitResult.deeds
      (memberUnit p spec dry) (o, ()) := by
  subst hname
  refine Division.Determined.check ?_
  change Division.Determined _ u _ _ (ite _ _ _) (o, ())
  split
  · exact ⟨_, _, ⟨rfl, rfl⟩, rfl, rfl⟩
  next hp =>
    have hp : p.hasMembers = true := by simpa using hp
    change Division.Determined _ u _ _ (Work.bind (Work.observing (observeMembers spec.name)) _) _
    cases o with
    | none =>
      have hanswer : ∀ m : Memory, m.projects.get? spec.name = none →
          Memory.serve (.findProject spec.name) m = (.error (Memory.noProject spec.name), m) :=
        fun m hm => by rw [Memory.serve_findProject, hm]
      refine determined_observing hserve hplace hbackend hm₀ hnodup rfl hanswer ?_
      change Division.Determined _ u _ _ (ite _ _ _) (none, ())
      split
      · exact determined_memberActions hserve hplace hbackend hm₀ hnodup hsettle hp rfl []
      · exact ⟨_, _, ⟨rfl, rfl⟩, rfl, rfl⟩
    | some h =>
      have hanswer : ∀ m : Memory, m.projects.get? spec.name = some h →
          Memory.serve (.findProject spec.name) m = (.ok (.named spec.name), m) :=
        fun m hm => by rw [Memory.serve_findProject, hm]
      refine determined_observing hserve hplace hbackend hm₀ hnodup rfl hanswer ?_
      refine determined_observing hserve hplace hbackend hm₀ hnodup rfl
        (fun m hm => Memory.serve_members hm) ?_
      exact determined_memberActions hserve hplace hbackend hm₀ hnodup hsettle hp rfl h.members

end

end World

end RegistryFleet
