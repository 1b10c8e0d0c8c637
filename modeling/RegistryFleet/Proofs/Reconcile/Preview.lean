import RegistryFleet.Proofs.Reconcile.OrderFree

/-!
# Proofs/Reconcile/Preview — a dry run foretells the real one and touches nothing

A dry run asks the same questions as a real one and performs nothing, so that its second phase sees
the backends as they were before the first. The real one sees them after it: but the members of a
project are only dealt with where the project is expected, and an expected project is by then the
one that was there or a new one without members. Either way the actions are the same.

* `World.reconcile_dry` — a dry run leaves the world as it is, interrupted or not.
* `Division.described_runActions` — the loop reports every action, whatever becomes of it.
* `World.Foreseen` — what the second phase finds of a project, seen from before the first.
* `World.reconcile_foretold` — the actions of the two reports are the same, unit by unit.
-/

namespace RegistryFleet

theorem Memory.serve_of_reads {c : Call} (hc : c.changes = none) (m : Memory) :
    (Memory.serve c m).2 = m := by
  cases c <;> first | rfl | cases hc

/-! ## A dry run touches nothing -/

namespace Division

variable {ω V : Type} {d : Division ω V} {u : Nat} {calm : Prop} {p : Profile}
  {actions : List Action} {v : V}

/-- Actions that are only worked out take no step. -/
theorem secure_actions_dry :
    d.Secure u calm (fun _ x => x = v) (Work.actions p true actions) v := by
  refine (secure_runActions (I := fun _ _ _ x => x = v) rfl fun _ _ _ _ _ hx => ?_).mono
    fun _ _ h => h.elim fun _ hx => hx
  exact secure_runAction (fun _ => hx) (fun _ _ => hx) (fun _ _ => hx)
    (fun _ hdry => Bool.noConfusion hdry) (fun _ hdry => Bool.noConfusion hdry)

end Division

namespace World

variable {w : World} {ms : List Memory} {directory : Option CredentialDirectory}
  {machine : Machine World} {backendOf : Nat → Nat} {units u : Nat} {calm : Prop} {p : Profile}
  {settings : RunSettings} {cancel : Option Nat} {projects : List ProjectSpec}

/-- A call that only reads leaves the world as it is. -/
theorem serve_of_reads (hw : w.backends = ms.map .memory) {c : Call} (hc : c.changes = none)
    (i : Nat) : (serve i c w).2 = w := by
  cases hm : w.memory? i with
  | some m => rw [serve_of_unchanged hm (Memory.serve_of_reads hc m)]
  | none =>
    have hnone : w.backends[i]? = none := by
      rw [memory?_of_backends hw] at hm
      rw [hw, List.getElem?_map, hm]
      rfl
    unfold serve
    rw [hnone]

/-- **A world that stays as it is**, of which its units see nothing. -/
def frozen (w : World) (machine : Machine World) (backendOf : Nat → Nat) (units : Nat) :
    Division World Unit where
  machine := machine
  backendOf := backendOf
  units := units
  sound world := world = w
  view _ _ := ()

theorem acts_reads (hserve : machine.serve = serve) (hw : w.backends = ms.map .memory) {c : Call}
    (hc : c.changes = none) {Q : c.Answer → Unit → Prop} (hQ : ∀ a, Q a ()) :
    (w.frozen machine backendOf units).Acts u (machine.serve (backendOf u) c) Q () := by
  rintro world rfl -
  rw [hserve]
  exact ⟨⟨serve_of_reads hw hc _, fun _ _ _ => rfl⟩, hQ _⟩

theorem frozen_projectUnit (hserve : machine.serve = serve) (hw : w.backends = ms.map .memory) :
    (w.frozen machine backendOf units).Secure u calm (fun _ _ => True)
      (projectUnit p projects true) () := by
  intro i _
  cases i with
  | some i => trivial
  | none =>
    refine Division.Secure.bind (w := Work.observing (.one .listProjects)) ?_
    refine Division.Secure.observing (fun _ _ => trivial) (acts_reads hserve hw rfl fun a => ?_)
    cases a with
    | error e => trivial
    | ok observed =>
      exact Division.Secure.bind (Division.secure_actions_dry.mono fun _ _ _ => trivial)

theorem frozen_memberUnit (hserve : machine.serve = serve) (hw : w.backends = ms.map .memory)
    {spec : ProjectSpec} : (w.frozen machine backendOf units).Secure u calm (fun _ _ => True)
      (memberUnit p spec true) () := by
  have hactions : ∀ observed, (w.frozen machine backendOf units).Secure u calm (fun _ _ => True)
      (memberActions p spec true observed) () := fun observed =>
    Division.Secure.bind (Division.secure_actions_dry.mono fun _ _ _ => trivial)
  intro i _
  cases i with
  | some i => trivial
  | none =>
    change Division.Secure _ u calm _ (ite _ _ _) ()
    split
    · trivial
    · refine Division.Secure.bind (w := Work.observing (observeMembers spec.name)) ?_
      refine Division.Secure.observing (c := .findProject spec.name) (fun _ _ => trivial)
        (acts_reads (c := .findProject spec.name) hserve hw rfl fun a => ?_)
      cases a with
      | error e =>
        cases e with
        | notFound _ _ => exact hactions []
        | _ => trivial
      | ok found =>
        refine Division.Secure.observing (c := .members found) (fun _ _ => trivial)
          (acts_reads (c := .members found) hserve hw rfl fun a => ?_)
        cases a with
        | error e =>
          cases e with
          | notFound _ _ => exact hactions []
          | _ => trivial
        | ok observed => exact hactions observed

theorem frozen_projectJob (hw : w.backends = ms.map .memory) {job : Job UnitResult}
    (hjob : (projectJobs (w.backends.map Backend.profile) projects true)[u]? = some job) :
    (w.frozen (w.machine directory) backendOf units).Secure u calm (fun _ _ => True)
      job.work () := by
  rw [getElem?_projectJobs] at hjob
  obtain ⟨p, -, rfl⟩ := Option.map_eq_some_iff.1 hjob
  exact frozen_projectUnit rfl hw

theorem frozen_memberJob (hw : w.backends = ms.map .memory) {job : Job UnitResult}
    (hjob : (memberJobs (w.backends.map Backend.profile) projects true)[u]? = some job) :
    (w.frozen (w.machine directory) backendOf units).Secure u calm (fun _ _ => True)
      job.work () := by
  rw [memberJobs_eq, List.getElem?_map] at hjob
  obtain ⟨⟨i, p, spec⟩, -, rfl⟩ := Option.map_eq_some_iff.1 hjob
  exact frozen_memberUnit rfl hw

/-- The first phase of a dry run. -/
theorem projectPhase_dry (hw : w.backends = ms.map .memory) (hdry : settings.dry = true) :
    (w.projectPhase directory settings cancel projects).world = w := by
  unfold projectPhase
  rw [hdry]
  exact (Division.phase_secured (w.frozen (w.machine directory) _ _) False (fun _ _ _ => True) rfl
    rfl rfl False.elim fun _ _ hjob => frozen_projectJob hw hjob).sound

/-- **A dry run leaves the world as it is**: backends, their logs and the files, whatever interrupts
it. -/
theorem reconcile_dry (hw : w.backends = ms.map .memory) (hdry : settings.dry = true)
    (directory : Option CredentialDirectory) (cancel : Option Nat) (projects : List ProjectSpec) :
    (w.reconcile directory settings cancel projects).2 = w := by
  rw [reconcile_eq, memberPhase, projectPhase_dry hw hdry, hdry]
  exact (Division.phase_secured (w.frozen (w.machine directory) _ _) False (fun _ _ _ => True) rfl
    rfl rfl False.elim fun _ _ hjob => frozen_memberJob hw hjob).sound

theorem Interleaving.middle_dry (hw : w.backends = ms.map .memory)
    (run : w.Interleaving directory true projects) : run.middle = w :=
  (Division.interleaves_secure (d := w.frozen (w.machine directory) _ _) (Q := fun _ _ _ => True)
    rfl rfl rfl (fun _ _ hjob => frozen_projectJob hw hjob) run.first).2.1

end World

/-! ## What is planned of a unit -/

theorem map_eq_map_of_getElem? {α β γ : Type} {xs : List α} {ys : List β} {f : α → γ} {g : β → γ}
    (hlength : xs.length = ys.length)
    (h : ∀ (u : Nat) x, xs[u]? = some x → ∃ y, ys[u]? = some y ∧ f x = g y) :
    xs.map f = ys.map g := by
  refine List.ext_getElem (by simpa using hlength) fun u hu hu' => ?_
  rw [List.length_map] at hu hu'
  obtain ⟨y, hy, hfg⟩ := h u xs[u] (List.getElem?_eq_getElem hu)
  obtain rfl := Option.some.inj ((List.getElem?_eq_getElem hu').symm.trans hy)
  rw [List.getElem_map, List.getElem_map, hfg]

/-- **The plan of a unit**: whose it is, and its actions in words. -/
structure Outline where
  registry : String
  project : Option String
  actions : List String
  deriving DecidableEq

/-- The label that the unit of a plan is listed by. -/
def Outline.label (o : Outline) : String :=
  (UnitResult.plain o.registry o.project .reconciled).label

/-- The plan that a result tells. -/
def UnitResult.outline (r : UnitResult) : Outline :=
  ⟨r.registry, r.project, r.actions.map ActionResult.description⟩

theorem UnitResult.label_outline (r : UnitResult) : r.outline.label = r.label := rfl

/-- The plan for the projects of a backend. -/
def Memory.outline (m : Memory) (projects : List ProjectSpec) : Outline :=
  ⟨m.registry.name, none, (Action.projectSteps m.projects.keys
    ((expectedOn m.registry.name projects).map ProjectSpec.name)).map Action.description⟩

/-- The plan for the members of a project, of which there are these. -/
def Profile.outline (p : Profile) (spec : ProjectSpec) (observed : List Member) : Outline :=
  ⟨p.registry.name, some spec.name, if p.hasMembers then
    (Action.memberSteps spec.name observed spec.members).map Action.description else []⟩

namespace Division

variable {ω V : Type} {d : Division ω V} {u : Nat} {I : V → Prop} {v : V}
  {perform : Action → Work (Except Error Effect)} {dry : Bool} {s : Progress} {a : Action}
  {r : Except Error Effect}

/-- What becomes of an action is told of that action. -/
theorem Settles.described {b : (String × ActionStatus) × Progress} {v' : V}
    (h : d.Settles u s a (fun r x => outcomeDeed r = b ∧ x = v') r v) (hv' : I v') :
    d.Settles u s a (fun r x => I x ∧ r.1.description = a.description) r v := by
  cases r with
  | ok e =>
    have hacts : d.Acts u (d.machine.settle e)
        (fun settled x => outcomeDeed (effectOutcome s a e settled) = b ∧ x = v') v := h
    exact .ok (hacts.mono fun _ _ hx => ⟨hx.2 ▸ hv', rfl⟩)
  | error err =>
    refine ⟨h.2 ▸ hv', ?_⟩
    unfold failureOutcome
    split <;> rfl

/-- One action, of which is told what it is. -/
theorem described_runAction (hv : I v) (ha : dry = false → d.Decided u I perform a) :
    d.Secure u True (fun r x => I x ∧ r.1.description = a.description)
      (runAction Work.interrupted perform Work.settling dry s a) v := by
  refine secure_runAction (fun _ => ⟨hv, rfl⟩) (fun _ _ => ⟨hv, rfl⟩) (fun _ _ => ⟨hv, rfl⟩)
    (fun _ _ _ => ⟨hv, rfl⟩) fun _ hdry _ => ?_
  obtain ⟨b, v', hv', hsecure⟩ := ha hdry s v hv
  exact hsecure.mono fun _ _ h => Settles.described h hv'

/-- **The loop tells every action**, in order, where each is decided. -/
theorem described_runActions {actions : List Action} (hv : I v)
    (h : dry = false → ∀ a ∈ actions, d.Decided u I perform a) :
    d.Secure u True
      (fun rs _ => rs.map ActionResult.description = actions.map Action.description)
      (runActions Work.interrupted perform Work.settling dry .start actions) v := by
  -- The actions that are done and those that are left are told together.
  refine (secure_runActions (I := fun done _ rest x => I x
    ∧ (dry = false → ∀ a ∈ rest, d.Decided u I perform a)
    ∧ done.map ActionResult.description ++ rest.map Action.description
      = actions.map Action.description) ⟨hv, h, rfl⟩ ?_).mono ?_
  · rintro done s a rest x ⟨hx, hleft, htold⟩
    refine (described_runAction hx fun hdry => hleft hdry a List.mem_cons_self).mono ?_
    rintro r y ⟨hy, hr⟩
    refine ⟨hy, fun hdry b hb => hleft hdry b (List.mem_cons_of_mem a hb), ?_⟩
    rw [← htold, List.map_append, List.append_assoc, List.map_singleton, hr, List.map_cons,
      List.singleton_append]
  · rintro rs x ⟨_, -, -, htold⟩
    rwa [List.map_nil, List.append_nil] at htold

end Division

namespace World

variable {w : World} {ms : List Memory} {directory : Option CredentialDirectory}
  {machine : Machine World} {backendOf : Nat → Nat} {setups : List Memory} {u i : Nat} {dry : Bool}
  {files : Files} {settings : RunSettings} {projects : List ProjectSpec}

/-! ## The plans of the first phase -/

theorem outline_projectUnit (hserve : machine.serve = serve)
    (hsettle : machine.settle = settle directory) (hu : backendOf u = u) (m : Memory) :
    (byBackend machine backendOf setups files).Secure u True
      (fun r _ => r.outline = m.outline projects) (projectUnit m.profile projects dry)
      (some m) := by
  intro i hi
  rw [hi trivial]
  refine Division.Secure.bind (w := Work.observing (.one .listProjects)) ?_
  refine Division.Secure.observing (fun hnot => absurd trivial hnot) (acts_serve hserve hu ?_)
  refine Division.Secure.bind ?_
  change (byBackend machine backendOf setups files).Secure u True _
    (Work.actions m.profile dry (Action.projectSteps (m.listing.map Project.name) _)) (some m)
  rw [Memory.names_listing]
  refine (Division.described_runActions (I := fun v => ∃ m, v = some m) ⟨m, rfl⟩ fun _ _ ha =>
    decided_projectStep hserve hsettle hu (.of_mem_steps ha)).mono fun rs _ hrs => ?_
  exact congrArg (Outline.mk m.registry.name none) hrs

/-- **The plans of the first phase** are read off the backends. -/
theorem Interleaving.outlines_firsts (hw : w.backends = ms.map .memory)
    (run : w.Interleaving directory dry projects) :
    run.firsts.map UnitResult.outline = ms.map fun m => m.outline projects := by
  have hunits : ms.length
      = (projectJobs (w.backends.map Backend.profile) projects dry).length := by
    simp [projectJobs, numbered, hw]
  have heach : ∀ u job, (projectJobs (w.backends.map Backend.profile) projects dry)[u]? = some job →
      (w.backendShares directory dry projects ms).Secure u True
        (fun r _ => ∃ m, ms[u]? = some m ∧ r.outline = m.outline projects) job.work
        (w.memory? u) := fun u job hjob => by
    have hu := Job.backendOf_eq hjob
    rw [getElem?_projectJobs, profiles_of_setups hw rfl, List.getElem?_map, Option.map_map] at hjob
    obtain ⟨m, hm, rfl⟩ := Option.map_eq_some_iff.1 hjob
    rw [memory?_of_backends hw, hm]
    exact (outline_projectUnit rfl (show (w.machine directory).settle = settle directory from rfl)
      hu m).mono fun r _ hr => ⟨m, rfl, hr⟩
  obtain ⟨hlength, -, hend⟩ := Division.interleaves_secure
    (d := w.backendShares directory dry projects ms) rfl hunits ⟨⟨ms, hw, rfl⟩, rfl⟩ heach run.first
  exact map_eq_map_of_getElem? (hlength.trans hunits.symm) hend

/-! ## The plans of the second phase -/

/-- **What may be found of a project** in the second phase, if before the first it was `o`: the same
members, and in a real run a project at all. -/
structure Foreseen (dry : Bool) (o found : Option Holding) : Prop where
  present : dry = false → found ≠ none
  members : found.elim [] Holding.members = o.elim [] Holding.members

section

variable {places : List (Nat × String)} {base : World} {name : String} {m₀ : Memory} {p : Profile}
  {o found : Option Holding}

variable (hserve : machine.serve = serve) (hsettle : machine.settle = settle directory)
  (hbackend : backendOf u = i) (hm₀ : setups[i]? = some m₀) (hnodup : places.Nodup)

include hserve hsettle hbackend hm₀ hnodup

/-- The actions on members that have been observed. -/
theorem outline_memberActions {spec : ProjectSpec} (hplace : places[u]? = some (i, spec.name))
    (hp : p.hasMembers = true) {observed : List Member} {v : Option Holding × Unit} :
    (byProject machine backendOf setups places base .blank).Secure u True
      (fun r _ => r.outline = p.outline spec observed) (memberActions p spec dry observed) v := by
  refine Division.Secure.bind ((Division.described_runActions (I := fun _ => True) trivial
    fun _ a ha => ?_).mono fun rs _ hrs => ?_)
  · obtain ⟨c, -, rfl⟩ := List.mem_map.1 ha
    exact decided_memberChange hserve hplace hbackend hm₀ hnodup hsettle hp c
  · change Outline.mk _ _ _ = Profile.outline _ _ _
    rw [Profile.outline, if_pos hp, ← hrs]
    rfl

/-- **The unit of a project keeps to the plan** where it finds what was foreseen. -/
theorem outline_memberUnit {spec : ProjectSpec} (hplace : places[u]? = some (i, spec.name))
    (h : Foreseen dry o found) :
    (byProject machine backendOf setups places base .blank).Secure u True
      (fun r _ => r.outline = p.outline spec (o.elim [] Holding.members))
      (memberUnit p spec dry) (found, ()) := by
  rw [← h.members]
  intro j hj
  rw [hj trivial]
  change Division.Secure _ u True _ (ite _ _ _) (found, ())
  split
  · next hp =>
    have hp : p.hasMembers = false := by simpa using hp
    change UnitResult.outline _ = Profile.outline _ _ _
    rw [Profile.outline, hp]
    rfl
  · next hp =>
    have hp : p.hasMembers = true := by simpa using hp
    refine Division.Secure.bind (w := Work.observing (observeMembers spec.name)) ?_
    refine Division.Secure.observing (c := .findProject spec.name)
      (fun hnot => absurd trivial hnot) (acts_call (c := .findProject spec.name) hserve hplace
        hbackend hm₀ hnodup (fun _ hq => nomatch hq) fun m _ hm => ?_)
    rw [Memory.serve_findProject, hm]
    cases found with
    | none =>
      have hdry : dry = true := by simpa using mt h.present (not_not_intro rfl)
      change Division.Secure _ u True _ (ite _ _ _) _
      rw [if_pos hdry]
      exact outline_memberActions hserve hsettle hbackend hm₀ hnodup hplace hp
    | some g =>
      refine Division.Secure.observing (c := .members (.named spec.name))
        (fun hnot => absurd trivial hnot) (acts_call (c := .members (.named spec.name)) hserve
          hplace hbackend hm₀ hnodup (fun _ hq => nomatch hq) fun m _ hm => ?_)
      rw [Memory.serve_members hm, hm]
      exact outline_memberActions hserve hsettle hbackend hm₀ hnodup hplace hp

end

/-- **The aim of a unit that can create projects**: every expected project is there, with what it
held or empty. -/
theorem projectAim_present {m : Memory} (hcreates : m.creates = true) (expected : List String) :
    ProjectAim True m.profile m expected (fun _ => False)
      fun n o => n ∈ expected → o = some ((m.projects.get? n).getD .empty) where
  interrupted hnot := absurd trivial hnot
  untouched n hn hexpected := by
    obtain ⟨h, hh⟩ := hn.2 hexpected
    rw [hh]
    rfl
  stepped a m' m'' r hstep hsame hrun := .inl fun hexpected => by
    cases hstep with
    | create name _ hnone =>
      have hnone' : m'.projects.get? name = none := hsame.trans hnone
      rw [Memory.run_createProject (p := m.profile) hcreates hnone'] at hrun
      obtain ⟨-, rfl⟩ := Prod.mk.inj hrun
      rw [Action.project, hnone]
      exact Keyed.get?_insert_self m'.projects name .empty
    | delete name hnot => exact absurd hexpected hnot

/-- **The second phase finds what was foreseen** of every expected project. -/
theorem Interleaving.foreseen_middle (hw : w.backends = ms.map .memory)
    (hcreates : ∀ m ∈ ms, m.creates = true)
    (he : ∀ registry, ((expectedOn registry projects).map ProjectSpec.name).Nodup)
    (run : w.Interleaving directory dry projects) {m : Memory} (hm : ms[i]? = some m) {n : String}
    (hn : n ∈ (expectedOn m.registry.name projects).map ProjectSpec.name) :
    Foreseen dry (m.projects.get? n) (run.middle.holding? (i, n)) := by
  cases dry with
  | true =>
    rw [Interleaving.middle_dry hw run, holding?_of_backends hw hm]
    exact ⟨fun hdry => Bool.noConfusion hdry, rfl⟩
  | false =>
    have hunits : (projectDivision w directory ⟨1, 1, false⟩ projects ms).units
        = (projectJobs (w.backends.map Backend.profile) projects false).length := by
      simp [projectDivision, byBackend, projectJobs, numbered, hw]
    obtain ⟨hlength, ⟨⟨ms', hmiddle, -⟩, -⟩, hend⟩ := Division.interleaves_secure
      (d := projectDivision w directory ⟨1, 1, false⟩ projects ms) rfl hunits ⟨⟨ms, hw, rfl⟩, rfl⟩
      (fun _ _ hjob => secure_projectJob hw rfl
        (fun m hm => projectAim_present (hcreates m hm) _) he hjob) run.first
    have hlt : i < run.firsts.length := by
      rw [hlength, ← hunits]
      exact (List.getElem?_eq_some_iff.1 hm).1
    rcases hend i run.firsts[i] (List.getElem?_eq_getElem hlt) m hm with ⟨hnot, -⟩ | ⟨-, _, -, hbad⟩
      | ⟨m', hm', hheld⟩
    · exact absurd trivial hnot
    · exact hbad.elim
    · have hfound : run.middle.holding? (i, n) = some ((m.projects.get? n).getD .empty) := by
        rw [holding?, show run.middle.memory? i = some m' from hm', Option.bind_some]
        exact hheld n hn
      rw [hfound]
      refine ⟨fun _ => Option.some_ne_none _, ?_⟩
      cases m.projects.get? n <;> rfl

/-- A unit of the second phase keeps to the plan for its project. -/
theorem Interleaving.outline_memberJob {ms₁ : List Memory} (hw : w.backends = ms.map .memory)
    (hsetup : ms₁.map Memory.setup = ms.map Memory.setup)
    (hcreates : ∀ m ∈ ms, m.creates = true)
    (he : ∀ registry, ((expectedOn registry projects).map ProjectSpec.name).Nodup)
    (run : w.Interleaving directory dry projects) {job : Job UnitResult}
    (hjob : (memberJobs (w.backends.map Backend.profile) projects dry)[u]? = some job) :
    (w.projectShares directory dry projects ms₁ run.middle).Secure u True
      (fun r _ => ∃ s, (memberSpots (w.backends.map Backend.profile) projects)[u]? = some s
        ∧ r.outline
          = s.2.1.outline s.2.2 ((w.holding? (s.1, s.2.2.name)).elim [] Holding.members)) job.work
      ((w.projectShares directory dry projects ms₁ run.middle).view u run.middle) := by
  have hspots := hjob
  rw [memberJobs_eq, List.getElem?_map] at hspots
  obtain ⟨⟨i, p, spec⟩, hu, rfl⟩ := Option.map_eq_some_iff.1 hspots
  have hplace := getElem?_memberPlaces hu
  have hspot := hu
  rw [profiles_of_setups hw rfl] at hspot
  obtain ⟨m, hm, rfl, hspec⟩ := getElem?_memberSpots hspot
  obtain ⟨m₁, hm₁, -⟩ := Memory.getElem?_of_setups hsetup.symm hm
  have hforeseen := run.foreseen_middle hw hcreates he hm (List.mem_map_of_mem hspec)
  rw [← holding?_of_backends hw hm] at hforeseen
  have hview : (w.projectShares directory dry projects ms₁ run.middle).view u run.middle
      = (run.middle.holding? (i, spec.name), ()) := by
    simp only [projectShares, byProject, hplace, Option.getD_some]
  rw [hview]
  exact (outline_memberUnit rfl (show (w.machine directory).settle = settle directory from rfl)
    (Job.backendOf_eq hjob) hm₁ (nodup_memberPlaces _ he) hplace hforeseen).mono
      fun r _ hr => ⟨(i, m.profile, spec), hu, hr⟩

/-- **The plans of the second phase** are read off the backends before the first. -/
theorem Interleaving.outlines_seconds (hw : w.backends = ms.map .memory)
    (hcreates : ∀ m ∈ ms, m.creates = true)
    (he : ∀ registry, ((expectedOn registry projects).map ProjectSpec.name).Nodup)
    (run : w.Interleaving directory dry projects) :
    run.seconds.map UnitResult.outline
      = (memberSpots (w.backends.map Backend.profile) projects).map fun s =>
          s.2.1.outline s.2.2 ((w.holding? (s.1, s.2.2.name)).elim [] Holding.members) := by
  obtain ⟨-, ⟨ms₁, hmiddle, hsetup⟩, -⟩ := Interleaving.firsts_agree hw run run
  have hunits : (memberPlaces (w.backends.map Backend.profile) projects).length
      = (memberJobs (w.backends.map Backend.profile) projects dry).length := by
    rw [memberJobs_eq, memberPlaces, List.length_map, List.length_map]
  obtain ⟨hlength, -, hend⟩ := Division.interleaves_secure
    (d := w.projectShares directory dry projects ms₁ run.middle) rfl hunits
    ⟨⟨ms₁, hmiddle, rfl⟩, trivial, fun _ _ => rfl⟩
    (fun _ _ hjob => run.outline_memberJob hw hsetup hcreates he hjob) run.second
  refine map_eq_map_of_getElem? ?_ hend
  rw [hlength, memberJobs_eq, List.length_map]

/-! ## The two reports -/

/-- Reports of units that were planned the same list the same plans. -/
theorem outlines_sortByLabel {xs xs' ys ys' : List UnitResult} (hxs : xs.Perm xs')
    (hys : ys.Perm ys') (h : xs'.map UnitResult.outline = ys'.map UnitResult.outline)
    (hlabels : (ys'.map UnitResult.label).Nodup) :
    (UnitResult.sortByLabel xs).map UnitResult.outline
      = (UnitResult.sortByLabel ys).map UnitResult.outline := by
  refine UnitResult.map_sortByLabel UnitResult.label_outline ?_ ?_
  · exact (hxs.map _).trans (h ▸ (hys.map _).symm)
  · exact (hys.map _).nodup_iff.2 hlabels

/-- **A dry run foretells the real one and touches nothing.** Over backends in memory that can
create projects it leaves every backend with its log and every file as they are; and where no signal
disturbs either, it reports unit by unit the actions that any other run from the same state reports,
with credentials kept or not. A cancellation that was signalled stays signalled (`Signals`). -/
theorem reconcile_foretold {directory' : Option CredentialDirectory}
    {registries : List RegistrySpec} {preview : RunSettings} {cancel cancel' : Option Nat}
    (hw : w.backends = ms.map .memory) (hnames : (ms.map fun m => m.registry.name).Nodup)
    (hcreates : ∀ m ∈ ms, m.creates = true)
    (hchecked : (Snapshot.mk registries projects).check = .ok ())
    (hpreview : preview.check = .ok ()) (hsettings : settings.check = .ok ())
    (hdry : preview.dry = true)
    (hundisturbed : w.Undisturbed directory preview cancel projects)
    (hundisturbed' : w.Undisturbed directory' settings cancel' projects) :
    (w.reconcile directory preview cancel projects).2 = w
      ∧ (w.reconcile directory preview cancel projects).1.units.map UnitResult.outline
        = (w.reconcile directory' settings cancel' projects).1.units.map UnitResult.outline := by
  have he := Snapshot.nodup_expectedOn hchecked
  obtain ⟨run, hfirsts, hseconds, -⟩ := exists_interleaving hpreview hundisturbed
  obtain ⟨run', hfirsts', hseconds', -⟩ := exists_interleaving hsettings hundisturbed'
  refine ⟨reconcile_dry hw hdry directory cancel projects, ?_⟩
  have hfirst := (run.outlines_firsts hw).trans (run'.outlines_firsts hw).symm
  have hsecond := (run.outlines_seconds hw hcreates he).trans
    (run'.outlines_seconds hw hcreates he).symm
  rw [reconcile_eq, reconcile_eq, List.map_append, List.map_append]
  exact congrArg₂ _ (outlines_sortByLabel hfirsts hfirsts' hfirst (run'.nodup_firsts hw hnames))
    (outlines_sortByLabel hseconds hseconds' hsecond (run'.nodup_seconds hw hnames hchecked))

/-- A backend with a project too many and a member that cannot be unbound, and an empty one without
members. -/
def unsettledPair : List Memory :=
  [ { (((distant "north" 0).addProject "old" ["app"]).addProject "tools" []).addMember "tools"
      ⟨"ci", .robot, "Guest"⟩ with failing := ["ci"] },
    { distant "south" 0 with hasMembers := false } ]

theorem reconcile_foretold_unsettled :
    ((ofMemories unsettledPair).reconcile none ⟨4, 1000, true⟩ none robotProjects).2
        = ofMemories unsettledPair
      ∧ ((ofMemories unsettledPair).reconcile none ⟨4, 1000, true⟩ none robotProjects).1.units.map
          UnitResult.outline
        = ((ofMemories unsettledPair).reconcile none ⟨1, 1000, false⟩ none
            robotProjects).1.units.map UnitResult.outline := by
  have hw : (ofMemories unsettledPair).backends = unsettledPair.map .memory := rfl
  have hnames : (unsettledPair.map fun m => m.registry.name).Nodup := by decide +kernel
  have hcreates : ∀ m ∈ unsettledPair, m.creates = true := by decide +kernel
  have hchecked : (Snapshot.mk [] robotProjects).check = .ok () := by decide
  have hinstant : ∀ b ∈ (ofMemories unsettledPair).backends, b.latency = 0 := by
    rw [hw, List.forall_mem_map]
    decide +kernel
  exact reconcile_foretold hw hnames hcreates hchecked rfl rfl rfl
    (undisturbed_of_instant hinstant (by decide)) (undisturbed_of_instant hinstant (by decide))

end World

end RegistryFleet
