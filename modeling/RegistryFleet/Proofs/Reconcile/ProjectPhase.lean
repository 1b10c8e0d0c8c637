import RegistryFleet.Proofs.Reconcile.Diff
import RegistryFleet.Proofs.Reconcile.InMemory

/-!
# Proofs/Reconcile/ProjectPhase — what the first phase makes of the projects of a backend

A unit of the first phase owns a backend, so that the loop over its actions can be followed on that
backend alone.

* `Memory.run_projectStep` — one creation or deletion.
* `World.secure_projectUnit` — the unit of a registry: projects that no step is about stay as they
  are, and of the others holds what holds after their step.
* `World.projectPhase_secure` — the whole phase.
-/

namespace RegistryFleet

/-! ## The steps towards the expected projects -/

/-- **A step from the projects of a backend towards the expected ones.** -/
inductive ProjectStep (m : Memory) (expected : List String) : Action → Prop
  | create (name : String) (hexpected : name ∈ expected) (hnone : m.projects.get? name = none) :
      ProjectStep m expected (.createProject name)
  | delete (name : String) (hexpected : name ∉ expected) (h : Holding)
      (hsome : m.projects.get? name = some h) : ProjectStep m expected (.deleteProject name)

namespace ProjectStep

variable {m : Memory} {expected : List String}

theorem of_mem_steps {a : Action} (h : a ∈ Action.projectSteps m.projects.keys expected) :
    ProjectStep m expected a := by
  obtain ⟨c, hc, rfl⟩ := List.mem_map.1 h
  rcases mem_diff.1 hc with ⟨x, rfl, hobserved, hexpected⟩ | ⟨x, rfl, hexpected, hobserved⟩
  · obtain ⟨g, hg⟩ := Keyed.mem_keys.1 hobserved
    exact .delete x hexpected g hg
  · refine .create x hexpected (Option.eq_none_iff_forall_not_mem.2 fun g hg => ?_)
    exact hobserved (Keyed.mem_keys.2 ⟨g, hg⟩)

/-- The step is about a project that the difference is about. -/
theorem project_steps (observed expected : List String) :
    (Action.projectSteps observed expected).map Action.project
      = (diff observed expected).map Change.element := by
  rw [Action.projectSteps, List.map_map]
  refine List.map_congr_left fun c _ => ?_
  cases c <;> rfl

/-- No two steps are about one project. -/
theorem nodup_steps (m : Memory) (h : expected.Nodup) :
    ((Action.projectSteps m.projects.keys expected).map Action.project).Nodup := by
  rw [project_steps]
  exact nodup_elements_diff (Keyed.nodup_keys _) h

/-- A project that no step is about is there just if it is expected. -/
theorem not_mem_steps {name : String}
    (h : name ∉ (Action.projectSteps m.projects.keys expected).map Action.project) :
    (∃ g, m.projects.get? name = some g) ↔ name ∈ expected := by
  rw [project_steps, elements_diff] at h
  rw [← Keyed.mem_keys]
  simp only [List.mem_append, List.mem_filter, List.contains_eq_mem, Bool.not_eq_true',
    decide_eq_false_iff_not, not_or, not_and, not_not] at h
  exact ⟨h.1, h.2⟩

/-- A step looks at its own project alone. -/
theorem congr {m' : Memory} {a : Action} (h : ProjectStep m expected a)
    (hm : m'.projects.get? a.project = m.projects.get? a.project) :
    ProjectStep m' expected a := by
  cases h with
  | create name hexpected hnone => exact .create name hexpected (hm.trans hnone)
  | delete name hexpected g hsome => exact .delete name hexpected g (hm.trans hsome)

end ProjectStep

namespace Memory

variable {m m' : Memory} {expected : List String}

/-- **What a project is to become**, from what it was: expected projects are created where they are
missing, others are deleted unless repositories are in the way. -/
def projectAfter (p : Profile) (expected : List String) (name : String) :
    Option Holding → Option Holding
  | none => if name ∈ expected ∧ p.creates = true then some .empty else none
  | some h => if name ∈ expected ∨ Refused p h then some h else none

theorem run_createProject {p : Profile} {name : String} (hc : p.creates = true)
    (hm : m.projects.get? name = none) :
    ((Action.createProject name).perform p).run serve m
      = (.ok .none, m.record (m.projects.insert name .empty) ("create_project " ++ name)) := by
  have hcontains : ¬ m.projects.contains name = true := by simp [Keyed.contains, hm]
  rw [Action.perform, Profile.create, if_pos hc, Calls.run_andThen, Calls.run_one,
    serve_createProject, if_neg hcontains]
  rfl

theorem run_deleteProject {p : Profile} {name : String} {h : Holding}
    (hm : m.projects.get? name = some h) :
    ((Action.deleteProject name).perform p).run serve m
      = match (p.delete (.named name)).run serve m with
        | (.ok (), m') => (.ok .none, m')
        | (.error e, m') => (.error e, m') := by
  rw [Action.perform, Calls.run_bind, Calls.run_one, serve_findProject, hm]
  simp only [Calls.run_andThen]
  obtain ⟨r, m'⟩ := (p.delete (.named name)).run serve m
  cases r <;> rfl

/-- A project is created or deleted without effect. -/
theorem eq_none_of_run_projectStep {m₀ : Memory} {p : Profile} {a : Action} {e : Effect}
    (ha : ProjectStep m₀ expected a) (hrun : (a.perform p).run serve m = (.ok e, m')) :
    e = .none := by
  cases ha with
  | create name =>
    rw [Action.perform, Calls.run_andThen] at hrun
    split at hrun
    · exact (Except.ok.inj (Prod.mk.inj hrun).1).symm
    · cases hrun
  | delete name =>
    cases hm : m.projects.get? name with
    | some h =>
      rw [run_deleteProject hm] at hrun
      split at hrun
      · exact (Except.ok.inj (Prod.mk.inj hrun).1).symm
      · cases hrun
    | none =>
      rw [Action.perform, Calls.run_bind, Calls.run_one, serve_findProject, hm] at hrun
      exact (Except.ok.inj (Prod.mk.inj hrun).1).symm

/-- **What a step makes of its project**: on success it is there just if it is expected, and it is
what it was to become, unless a repository is listed twice. -/
structure Stepped (p : Profile) (expected : List String) (name : String) (m : Memory)
    (r : Except Error Effect) (m' : Memory) : Prop where
  within : Within name m m'
  error : ∀ e, r = .error e → e.isFatal = false ∧ (p.creates = true → e.isCapabilityGap = false)
  ok : ∀ e, r = .ok e → ((∃ h, m'.projects.get? name = some h) ↔ name ∈ expected)
  after : (∀ h, m.projects.get? name = some h → h.repositories.Nodup) →
    m'.projects.get? name = projectAfter p expected name (m.projects.get? name)

variable {p : Profile} {r : Except Error Effect} {name : String}

theorem stepped_create (hexpected : name ∈ expected) (hnone : m.projects.get? name = none)
    (hrun : ((Action.createProject name).perform p).run serve m = (r, m')) :
    Stepped p expected name m r m' := by
  by_cases hc : p.creates = true
  · rw [run_createProject hc hnone] at hrun
    obtain ⟨rfl, rfl⟩ := Prod.mk.inj hrun
    have hnew := Keyed.get?_insert_self m.projects name Holding.empty
    refine ⟨.insert m name _ _, fun e he => (by cases he), fun e _ => ?_, fun _ => ?_⟩
    · exact iff_of_true ⟨.empty, hnew⟩ hexpected
    · rw [hnone]
      exact hnew.trans (if_pos ⟨hexpected, hc⟩).symm
  · rw [Action.perform, Profile.create, if_neg hc] at hrun
    obtain ⟨rfl, rfl⟩ := Prod.mk.inj hrun
    refine ⟨.refl name m, fun e he => ⟨Except.error.inj he ▸ rfl, fun h => absurd h hc⟩,
      fun e he => (by cases he), fun _ => ?_⟩
    rw [hnone]
    exact (if_neg fun h => hc h.2).symm

theorem stepped_delete (hexpected : name ∉ expected) {h : Holding}
    (hsome : m.projects.get? name = some h)
    (hrun : ((Action.deleteProject name).perform p).run serve m = (r, m')) :
    Stepped p expected name m r m' := by
  rw [run_deleteProject hsome] at hrun
  by_cases hr : Refused p h
  · rw [run_delete_of_refused hsome hr] at hrun
    obtain ⟨rfl, rfl⟩ := Prod.mk.inj hrun
    refine ⟨.refl name m, fun e he => Except.error.inj he ▸ ⟨rfl, fun _ => rfl⟩,
      fun e he => (by cases he), fun _ => ?_⟩
    rw [hsome]
    exact (if_pos (.inr hr)).symm
  · obtain ⟨hwithin, herror, hgone, hok⟩ := run_delete hsome hr (Prod.eta _).symm
    generalize (p.delete (.named name)).run serve m = deleted at hrun hwithin herror hgone hok
    obtain ⟨r', m''⟩ := deleted
    cases r' with
    | ok _ =>
      obtain ⟨rfl, rfl⟩ := Prod.mk.inj hrun
      have hnone := hgone rfl
      refine ⟨hwithin, fun e he => (by cases he), fun e _ => ?_, fun _ => ?_⟩
      · exact iff_of_false (fun ⟨g, hg⟩ => (by simp [hnone] at hg)) hexpected
      · rw [hsome]
        exact hnone.trans (if_neg fun h => h.elim hexpected hr).symm
    | error e =>
      obtain ⟨rfl, rfl⟩ := Prod.mk.inj hrun
      refine ⟨hwithin, fun e' he => ?_, fun e he => (by cases he), fun hnodup => ?_⟩
      · obtain rfl := Except.error.inj he
        exact ⟨Error.isFatal_of_isRecoverable (herror e rfl),
          fun _ => Error.isCapabilityGap_of_isRecoverable (herror e rfl)⟩
      · exact absurd (hok (hnodup h hsome)) (by simp)

/-- **One step on the projects of a backend.** -/
theorem run_projectStep {a : Action} (ha : ProjectStep m expected a)
    (hrun : (a.perform p).run serve m = (r, m')) : Stepped p expected a.project m r m' := by
  cases ha with
  | create name hexpected hnone => exact stepped_create hexpected hnone hrun
  | delete name hexpected h hsome => exact stepped_delete hexpected hsome hrun

/-- The calls of an action leave what a backend was set up with. -/
theorem setup_run {α : Type} : ∀ (t : Calls α) (m : Memory), (t.run serve m).2.setup = m.setup
  | .done _, _ => rfl
  | .ask c next, m => (setup_run (next (serve c m).1) (serve c m).2).trans (setup_serve c m)

end Memory

/-! ## The loop over the steps -/

/-- **What is to be shown of the projects of a backend**: `Held` of each project that needs no step
and of each that has had its step, unless something `Bad` has become of a step. -/
structure ProjectAim (calm : Prop) (p : Profile) (m₀ : Memory) (expected : List String)
    (Bad : ActionResult → Prop) (Held : String → Option Holding → Prop) : Prop where
  interrupted : ¬ calm → ∀ text, Bad (.plain text .notStarted)
  untouched : ∀ n, ((∃ h, m₀.projects.get? n = some h) ↔ n ∈ expected) →
    Held n (m₀.projects.get? n)
  stepped : ∀ a m m' r, ProjectStep m₀ expected a →
    m.projects.get? a.project = m₀.projects.get? a.project →
    (a.perform p).run Memory.serve m = (r, m') →
      Held a.project (m'.projects.get? a.project)
        ∨ ∃ e, r = .error e ∧ ∀ s, Bad (failureOutcome s a e).1

/-- **The loop invariant** — projects whose step is still to come are as they were. -/
structure ProjectsUnderway (m₀ : Memory) (expected : List String) (Bad : ActionResult → Prop)
    (Held : String → Option Holding → Prop) (done : List ActionResult) (s : Progress)
    (rest : List Action) (m : Memory) : Prop where
  setup : m.setup = m₀.setup
  nodup : (rest.map Action.project).Nodup
  steps : ∀ a ∈ rest, ProjectStep m₀ expected a
  progress : (∃ r ∈ done, Bad r) ∨ s.halted = false
    ∧ (∀ n ∈ rest.map Action.project, m.projects.get? n = m₀.projects.get? n)
    ∧ ∀ n ∉ rest.map Action.project, Held n (m.projects.get? n)

namespace ProjectsUnderway

variable {calm : Prop} {p : Profile} {m₀ m m' : Memory} {expected : List String}
  {Bad : ActionResult → Prop} {Held : String → Option Holding → Prop} {done : List ActionResult}
  {s s' : Progress} {a : Action} {rest : List Action} {r : ActionResult}

theorem start (haim : ProjectAim calm p m₀ expected Bad Held) (he : expected.Nodup) :
    ProjectsUnderway m₀ expected Bad Held [] .start
      (Action.projectSteps m₀.projects.keys expected) m₀ where
  setup := rfl
  nodup := ProjectStep.nodup_steps m₀ he
  steps _ := ProjectStep.of_mem_steps
  progress := .inr ⟨rfl, fun _ _ => rfl,
    fun n hn => haim.untouched n (ProjectStep.not_mem_steps hn)⟩

/-- A step that something bad becomes of. -/
theorem bad (h : ProjectsUnderway m₀ expected Bad Held done s (a :: rest) m)
    (hsetup : m'.setup = m₀.setup) (hr : (∃ r ∈ done, Bad r) ∨ Bad r) :
    ProjectsUnderway m₀ expected Bad Held (done ++ [r]) s' rest m' where
  setup := hsetup
  nodup := (List.nodup_cons.1 h.nodup).2
  steps b hb := h.steps b (List.mem_cons_of_mem a hb)
  progress := .inl <| by
    rcases hr with ⟨r', hr', hbad⟩ | hbad
    · exact ⟨r', List.mem_append_left _ hr', hbad⟩
    · exact ⟨r, by simp, hbad⟩

/-- A step after which its project is as it is to be. -/
theorem held (h : ProjectsUnderway m₀ expected Bad Held done s (a :: rest) m)
    (hwithin : Memory.Within a.project m m') (hs : s'.halted = s.halted)
    (hheld : Held a.project (m'.projects.get? a.project)) :
    ProjectsUnderway m₀ expected Bad Held (done ++ [r]) s' rest m' := by
  rcases h.progress with hbad | ⟨hhalted, hcoming, hdone⟩
  · exact h.bad (hwithin.setup.trans h.setup) (.inl hbad)
  · obtain ⟨ha, hnodup⟩ := List.nodup_cons.1 h.nodup
    refine ⟨hwithin.setup.trans h.setup, hnodup, fun b hb => h.steps b (List.mem_cons_of_mem a hb),
      .inr ⟨hs.trans hhalted, fun n hn => ?_, fun n hn => ?_⟩⟩
    · rw [hwithin.others n fun he => ha (he ▸ hn)]
      exact hcoming n (List.mem_cons_of_mem _ hn)
    · rcases eq_or_ne n a.project with rfl | hne
      · exact hheld
      · rw [hwithin.others n hne]
        exact hdone n fun hmem => (List.mem_cons.1 hmem).elim hne hn

/-- A step that the backend has carried out. -/
theorem carried (h : ProjectsUnderway m₀ expected Bad Held done s (a :: rest) m)
    (haim : ProjectAim calm p m₀ expected Bad Held) {e : Effect}
    (hrun : (a.perform p).run Memory.serve m = (.ok e, m')) (hs : s'.halted = s.halted) :
    ProjectsUnderway m₀ expected Bad Held (done ++ [r]) s' rest m' := by
  have hstep := h.steps a List.mem_cons_self
  rcases h.progress with hbad | ⟨-, hcoming, -⟩
  · have hsetup := (Memory.setup_run (a.perform p) m).trans h.setup
    rw [hrun] at hsetup
    exact h.bad hsetup (.inl hbad)
  · have hsame := hcoming a.project List.mem_cons_self
    have hwithin := (Memory.run_projectStep (hstep.congr hsame) hrun).within
    have hheld := haim.stepped a m m' _ hstep hsame hrun
    exact h.held hwithin hs (hheld.resolve_right fun ⟨_, he, _⟩ => nomatch he)

/-- A step that has failed. -/
theorem failed (h : ProjectsUnderway m₀ expected Bad Held done s (a :: rest) m)
    (haim : ProjectAim calm p m₀ expected Bad Held) {e : Error}
    (hrun : (a.perform p).run Memory.serve m = (.error e, m')) :
    ProjectsUnderway m₀ expected Bad Held (done ++ [(failureOutcome s a e).1])
      (failureOutcome s a e).2 rest m' := by
  have hstep := h.steps a List.mem_cons_self
  have hsetup := (Memory.setup_run (a.perform p) m).trans h.setup
  rw [hrun] at hsetup
  rcases h.progress with hbad | ⟨-, hcoming, -⟩
  · exact h.bad hsetup (.inl hbad)
  · have hsame := hcoming a.project List.mem_cons_self
    have hstepped := Memory.run_projectStep (hstep.congr hsame) hrun
    rcases haim.stepped a m m' _ hstep hsame hrun with hheld | ⟨e', he, hbad⟩
    · exact h.held hstepped.within (halted_failureOutcome (hstepped.error e rfl).1) hheld
    · obtain rfl := Except.error.inj he
      exact h.bad hsetup (.inr (hbad s))

end ProjectsUnderway

namespace World

variable {machine : Machine World} {backendOf : Nat → Nat} {setups : List Memory} {u : Nat}
  {calm : Prop} {directory : Option CredentialDirectory} {p : Profile} {m₀ : Memory}
  {expected : List String} {Bad : ActionResult → Prop} {Held : String → Option Holding → Prop}
  {files : Files}

/-- **The steps of a unit that owns a backend**, one after the other. -/
theorem secure_projectSteps (hserve : machine.serve = serve)
    (hsettle : machine.settle = settle directory) (hu : backendOf u = u)
    (haim : ProjectAim calm p m₀ expected Bad Held) (he : expected.Nodup) :
    (byBackend machine backendOf setups files).Secure u calm
      (fun rs v => ∃ s m, v = some m ∧ ProjectsUnderway m₀ expected Bad Held rs s [] m)
      (Work.actions p false (Action.projectSteps m₀.projects.keys expected)) (some m₀) := by
  refine Division.secure_runActions (I := fun done s rest v =>
    ∃ m, v = some m ∧ ProjectsUnderway m₀ expected Bad Held done s rest m)
    ⟨m₀, rfl, .start haim he⟩ ?_
  rintro done s a rest v ⟨m, rfl, h⟩
  refine Division.secure_runAction (fun hhalted => ?_) (fun _ hcalm => ?_)
    (fun _ hdry => nomatch hdry) (fun _ _ hblocks => ?_)
    (fun hhalted _ _ => secure_acting hserve hu ?_)
  · rcases h.progress with hbad | ⟨hnot, -⟩
    · exact ⟨m, rfl, h.bad h.setup (.inl hbad)⟩
    · rw [hnot] at hhalted
      cases hhalted
  · exact ⟨m, rfl, h.bad h.setup (.inr (haim.interrupted hcalm _))⟩
  · exfalso
    cases h.steps a List.mem_cons_self <;> cases hblocks
  · generalize hrun : (a.perform p).run Memory.serve m = out
    obtain ⟨r, m'⟩ := out
    cases r with
    | ok e =>
      obtain rfl := Memory.eq_none_of_run_projectStep (h.steps a List.mem_cons_self) hrun
      exact .ok (acts_settle_none hsettle ⟨m', rfl, h.carried haim hrun (Bool.or_false _)⟩)
    | error e => exact ⟨m', rfl, h.failed haim hrun⟩

/-- **The unit of a registry.** -/
theorem secure_projectUnit {projects : List ProjectSpec} (hserve : machine.serve = serve)
    (hsettle : machine.settle = settle directory) (hu : backendOf u = u)
    (haim : ProjectAim calm p m₀ ((expectedOn p.registry.name projects).map ProjectSpec.name)
      Bad Held)
    (he : ((expectedOn p.registry.name projects).map ProjectSpec.name).Nodup) :
    (byBackend machine backendOf setups files).Secure u calm
      (fun r v => (¬ calm ∧ ∃ reason, r.status = .notReconciled reason)
        ∨ (r.status = UnitResult.statusOf r.actions ∧ ∃ a ∈ r.actions, Bad a)
        ∨ ∃ m, v = some m ∧ ∀ n, Held n (m.projects.get? n))
      (projectUnit p projects false) (some m₀) := by
  intro i hi
  cases i with
  | some i => exact .inl ⟨fun hc => Option.some_ne_none i (hi hc), _, rfl⟩
  | none =>
    refine Division.Secure.bind (w := Work.observing (.one .listProjects)) ?_
    refine Division.Secure.observing (fun hc i => .inl ⟨hc, _, rfl⟩) (acts_serve hserve hu ?_)
    refine Division.Secure.bind ?_
    change (byBackend machine backendOf setups files).Secure u calm _
      (Work.actions p false (Action.projectSteps (m₀.listing.map Project.name) _)) (some m₀)
    rw [Memory.names_listing]
    refine (secure_projectSteps hserve hsettle hu haim he).mono ?_
    rintro rs v ⟨s, m, rfl, h⟩
    rcases h.progress with hbad | ⟨-, -, hheld⟩
    · exact .inr (.inl ⟨rfl, hbad⟩)
    · exact .inr (.inr ⟨m, rfl, fun n => hheld n List.not_mem_nil⟩)

/-! ## The phase -/

theorem getElem?_projectJobs (profiles : List Profile) (projects : List ProjectSpec) (dry : Bool)
    (u : Nat) : (projectJobs profiles projects dry)[u]?
      = profiles[u]?.map fun p => ⟨u, projectUnit p projects dry⟩ := by
  rw [projectJobs, List.getElem?_map, getElem?_numbered, Option.map_map]
  rfl

/-- The division of the first phase. -/
def projectDivision (w : World) (directory : Option CredentialDirectory) (settings : RunSettings)
    (projects : List ProjectSpec) (ms : List Memory) : Division World (Option Memory) :=
  byBackend (w.machine directory)
    (Job.backendOf (projectJobs (w.backends.map Backend.profile) projects settings.dry)) ms w.files

theorem projectJobs_of_memory {w : World} {ms : List Memory} {settings : RunSettings}
    (projects : List ProjectSpec) (hw : w.backends = ms.map .memory) (hdry : settings.dry = false)
    (u : Nat) : (projectJobs (w.backends.map Backend.profile) projects settings.dry)[u]?
      = ms[u]?.map fun m => ⟨u, projectUnit m.profile projects false⟩ := by
  rw [getElem?_projectJobs, hw, hdry, List.getElem?_map, List.getElem?_map, Option.map_map,
    Option.map_map]
  rfl

/-- **A unit of the phase** meets the aim for its backend. -/
theorem secure_projectJob {w : World} {ms : List Memory} {settings : RunSettings}
    {projects : List ProjectSpec} {Held : Memory → String → Option Holding → Prop}
    (hw : w.backends = ms.map .memory) (hdry : settings.dry = false)
    (haim : ∀ m ∈ ms, ProjectAim calm m.profile m
      ((expectedOn m.registry.name projects).map ProjectSpec.name) Bad (Held m))
    (he : ∀ registry, ((expectedOn registry projects).map ProjectSpec.name).Nodup) {u : Nat}
    {job : Job UnitResult}
    (hjob : (projectJobs (w.backends.map Backend.profile) projects settings.dry)[u]? = some job) :
    (projectDivision w directory settings projects ms).Secure u calm
      (fun r v => ∀ m, ms[u]? = some m →
        (¬ calm ∧ ∃ reason, r.status = .notReconciled reason)
          ∨ (r.status = UnitResult.statusOf r.actions ∧ ∃ a ∈ r.actions, Bad a)
          ∨ ∃ m', v = some m' ∧ ∀ n, Held m n (m'.projects.get? n))
      job.work (w.memory? u) := by
  have hu := Job.backendOf_eq hjob
  rw [projectJobs_of_memory projects hw hdry] at hjob
  obtain ⟨m, hm, rfl⟩ := Option.map_eq_some_iff.1 hjob
  rw [memory?_of_backends hw, hm]
  refine (secure_projectUnit rfl (show (w.machine directory).settle = settle directory from rfl) hu
    (haim m (List.mem_of_getElem? hm)) (he _)).mono ?_
  rintro r v hr m' hm'
  obtain rfl := Option.some.inj hm'
  exact hr

/-- **The first phase** — what was to be shown of the projects of each backend holds at its end,
unless the unit of the backend was interrupted or something bad has become of one of its steps. -/
theorem projectPhase_secure {w : World} {ms : List Memory} {settings : RunSettings}
    {cancel : Option Nat} {projects : List ProjectSpec}
    {Held : Memory → String → Option Holding → Prop}
    (hw : w.backends = ms.map .memory) (hc : 0 < settings.concurrent) (hdry : settings.dry = false)
    (hcalm : calm → (Signals.mk settings.deadline cancel).at?
      (w.projectPhase directory settings cancel projects).now = none)
    (haim : ∀ m ∈ ms, ProjectAim calm m.profile m
      ((expectedOn m.registry.name projects).map ProjectSpec.name) Bad (Held m))
    (he : ∀ registry, ((expectedOn registry projects).map ProjectSpec.name).Nodup) :
    ∃ (ms' : List Memory) (vals : List UnitResult),
      (w.projectPhase directory settings cancel projects).world.backends = ms'.map .memory
      ∧ ms'.map Memory.setup = ms.map Memory.setup
      ∧ (w.projectPhase directory settings cancel projects).world.files = w.files
      ∧ (w.projectPhase directory settings cancel projects).values.Perm vals
      ∧ ∀ (i : Nat) (m m' : Memory), ms[i]? = some m → ms'[i]? = some m' → ∃ r ∈ vals,
        (¬ calm ∧ ∃ reason, r.status = .notReconciled reason)
          ∨ (r.status = UnitResult.statusOf r.actions ∧ ∃ a ∈ r.actions, Bad a)
          ∨ ∀ n, Held m n (m'.projects.get? n) := by
  have hunits : (projectDivision w directory settings projects ms).units
      = (projectJobs (w.backends.map Backend.profile) projects settings.dry).length := by
    simp [projectDivision, byBackend, projectJobs, numbered, hw]
  obtain ⟨vals, hvalues, hcount, ⟨⟨ms', hms', hsetups⟩, hfiles⟩, hend⟩ :=
    Division.phase_secure _ calm _ rfl hunits hc ⟨⟨ms, hw, rfl⟩, rfl⟩ hcalm
      fun u job hjob => secure_projectJob hw hdry haim he hjob
  refine ⟨ms', vals, hms', hsetups, hfiles, hvalues, fun i m m' hm hm' => ?_⟩
  have hlt : i < vals.length := by
    rw [hcount, ← hunits]
    exact (List.getElem?_eq_some_iff.1 hm).1
  refine ⟨vals[i], List.getElem_mem hlt, ?_⟩
  rcases hend i vals[i] (List.getElem?_eq_getElem hlt) m hm with h | h | ⟨m'', hm'', h⟩
  · exact .inl h
  · exact .inr (.inl h)
  · obtain rfl : m'' = m' :=
      Option.some.inj (hm''.symm.trans ((memory?_of_backends hms' i).trans hm'))
    exact .inr (.inr h)

end World

end RegistryFleet
