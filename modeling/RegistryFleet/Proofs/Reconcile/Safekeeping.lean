import RegistryFleet.Proofs.Reconcile.Course
import RegistryFleet.Proofs.Reconcile.MemberPhase
import RegistryFleet.Proofs.Reconcile.ProjectPhase

/-!
# Proofs/Reconcile/Safekeeping — no image is deleted without forced deletion

A deletion lists the repositories of a project and gives up where there are any, unless it is
forced. Other units go on between the listing and the removal, so the listing is not what protects
an image. What does: a project that owned repositories at the start of everything owns them at
every step since, hence no listing of it ever comes back without repositories.

* `Memory.Kept` — every repository is still where it was.
* `Calls.Spares` — no call of a tree costs a repository.
* `World.Visits` — the worlds that a sequence of runs passes through.
* `World.repositories_kept` — without forced deletion all of them keep every repository.
-/

namespace RegistryFleet

/-! ## What is kept -/

/-- **Every repository is still there**, in the same project of a backend set up the same. -/
structure Memory.Kept (before after : Memory) : Prop where
  setup : after.setup = before.setup
  repositories : ∀ name h, before.projects.get? name = some h → h.repositories ≠ [] →
    ∃ h', after.projects.get? name = some h' ∧ h'.repositories = h.repositories

/-- Does the call delete repositories, or a project with all it holds? -/
def Call.deletes : Call → Bool
  | .deleteRepository _ | .removeProject _ => true
  | _ => false

namespace Memory

variable {m m' : Memory} {name : String} {h : Holding} {c : Call}

/-- A call that deletes nothing leaves a project its repositories. -/
theorem repositories_serve (hc : c.deletes = false) (hm : m.projects.get? name = some h) :
    ∃ h', (serve c m).2.projects.get? name = some h' ∧ h'.repositories = h.repositories := by
  by_cases hname : c.changes = some name
  · cases c with
    | deleteRepository r => cases hc
    | removeProject p => cases hc
    | createProject n =>
      obtain rfl : n = name := Option.some.inj hname
      rw [serve_createProject, if_pos (Keyed.contains_iff.2 ⟨h, hm⟩)]
      exact ⟨h, hm, rfl⟩
    | assign p b =>
      obtain rfl : p.name = name := Option.some.inj hname
      rw [serve_assign, hm]
      split
      · exact ⟨h, hm, rfl⟩
      · exact ⟨_, Keyed.get?_insert_self m.projects p.name _, rfl⟩
    | unassign p b =>
      obtain rfl : p.name = name := Option.some.inj hname
      rw [serve_unassign, hm]
      split
      · exact ⟨h, hm, rfl⟩
      · simp only
        split
        · exact ⟨_, Keyed.get?_insert_self m.projects p.name _, rfl⟩
        · exact ⟨h, hm, rfl⟩
    | _ => cases hname
  · refine ⟨h, ?_, rfl⟩
    cases hchanges : c.changes with
    | none =>
      rw [← hm]
      refine (within_serve c m (name ++ "/") fun q hq => ?_).others name fun he => ?_
      · rw [hchanges] at hq
        cases hq
      · have hlength := congrArg String.length he
        simp [String.length_append] at hlength
    | some changed =>
      rw [← hm]
      refine (within_serve c m changed fun q hq => ?_).others name fun he => ?_
      · exact (Option.some.inj (hchanges.symm.trans hq)).symm
      · exact hname (he ▸ hchanges)

namespace Kept

theorem refl (m : Memory) : Kept m m := ⟨rfl, fun _ h hm _ => ⟨h, hm, rfl⟩⟩

/-- What was kept survives a call that deletes nothing. -/
theorem serve (hk : Kept m m') (hc : c.deletes = false) : Kept m (serve c m').2 where
  setup := (setup_serve c m').trans hk.setup
  repositories name h hm hrepositories := by
    obtain ⟨h', hm', heq⟩ := hk.repositories name h hm hrepositories
    obtain ⟨h'', hm'', heq'⟩ := repositories_serve hc hm'
    exact ⟨h'', hm'', heq'.trans heq⟩

/-- What was kept survives the removal of a project that never owned a repository. -/
theorem serve_removeProject (hk : Kept m m') {p : Project}
    (hp : ∀ h, m.projects.get? p.name = some h → h.repositories = []) :
    Kept m (Memory.serve (.removeProject p) m').2 where
  setup := (setup_serve _ m').trans hk.setup
  repositories name h hm hrepositories := by
    have hne : name ≠ p.name := fun he => hrepositories (hp h (he ▸ hm))
    have hwithin := within_serve (.removeProject p) m' p.name
      fun q hq => (Option.some.inj hq).symm
    rw [hwithin.others name hne]
    exact hk.repositories name h hm hrepositories

/-- **A project that is listed without repositories** never owned any. -/
theorem repositories_of_listed (hk : Kept m m') {p : Project}
    (hlisted : (Memory.serve (.listRepositories p) m').1 = .ok []) :
    ∀ h, m.projects.get? p.name = some h → h.repositories = [] := by
  intro h hm
  refine Decidable.byContradiction fun hrepositories => ?_
  obtain ⟨h', hm', heq⟩ := hk.repositories p.name h hm hrepositories
  have hanswer : (Memory.serve (.listRepositories p) m').1
      = .ok (h'.repositories.map (Repository.mk p.name)) := by
    simp only [Memory.serve, Memory.repositories, holding, hm']
    rfl
  rw [hanswer] at hlisted
  exact hrepositories (heq ▸ List.map_eq_nil_iff.1 (Except.ok.inj hlisted))

end Kept

end Memory

/-! ## Trees of calls that cost no repository -/

/-- **No call of the tree costs a repository**, whatever else goes on between its calls. -/
def Calls.Spares {α : Type} (m : Memory) : Calls α → Prop
  | .done _ => True
  | .ask c next => ∀ m', m.Kept m' →
      m.Kept (Memory.serve c m').2 ∧ Spares m (next (Memory.serve c m').1)

namespace Calls

variable {α β : Type} {m : Memory}

theorem spares_one {c : Call} (hc : c.deletes = false) : (one c).Spares m :=
  fun _ hk => ⟨hk.serve hc, trivial⟩

theorem Spares.bind {f : α → Calls β} (hf : ∀ a, (f a).Spares m) :
    ∀ {t : Calls α}, t.Spares m → (t.bind f).Spares m
  | .done a, _ => hf a
  | .ask _ _, ht => fun m' hk => ⟨(ht m' hk).1, Spares.bind hf (ht m' hk).2⟩

theorem Spares.andThen {t : Calls (Except Error α)} {f : α → Calls (Except Error β)}
    (ht : t.Spares m) (hf : ∀ a, (f a).Spares m) : (t.andThen f).Spares m := by
  refine Spares.bind (fun r => ?_) ht
  cases r with
  | ok a => exact hf a
  | error e => trivial

/-- **A deletion that is not forced** costs no repository. -/
theorem spares_delete {p : Profile} (hforce : p.registry.options.forceDelete = false)
    (project : Project) : (p.delete project).Spares m := by
  intro m' hk
  refine ⟨hk.serve rfl, ?_⟩
  cases hlisted : (Memory.serve (.listRepositories project) m').1 with
  | error e => trivial
  | ok repositories =>
    change Spares m (ite _ _ _)
    cases repositories with
    | cons r rest =>
      rw [hforce]
      trivial
    | nil =>
      have hnever := hk.repositories_of_listed hlisted
      exact fun m'' hk' => ⟨hk'.serve_removeProject hnever, trivial⟩

theorem spares_lookUp (p : Profile) (name : String) : (Action.lookUp p name).Spares m := by
  refine Spares.bind (fun answer => ?_) (spares_one rfl)
  split <;> trivial

/-- What is done with a project that has been looked up. -/
theorem spares_lookedUp (p : Profile) (name : String)
    {t : Project → Calls (Except Error Effect)} (ht : ∀ project, (t project).Spares m) :
    (p.withMembers ((Action.lookUp p name).andThen t)).Spares m := by
  unfold Profile.withMembers
  split
  · exact (spares_lookUp p name).andThen ht
  · trivial

/-- **No action costs a repository** where deletion is not forced. -/
theorem spares_perform {p : Profile} (hforce : p.registry.options.forceDelete = false)
    (a : Action) : (a.perform p).Spares m := by
  cases a with
  | createProject name =>
    refine Spares.andThen ?_ fun _ => trivial
    unfold Profile.create
    split
    · exact spares_one rfl
    · trivial
  | deleteProject name =>
    refine Spares.bind (fun answer => ?_) (spares_one rfl)
    split
    · exact (spares_delete hforce _).andThen fun _ => trivial
    · trivial
    · trivial
  | bind name b =>
    refine spares_lookedUp p name fun project => ?_
    exact (spares_one (c := .assign project b) rfl).andThen fun _ => trivial
  | unbind name b =>
    refine spares_lookedUp p name fun project => ?_
    exact (spares_one (c := .unassign project b) rfl).andThen fun _ => trivial

end Calls

namespace World

/-! ## Units that keep the repositories of a backend -/

/-- Units that see nothing, and none of which costs the backend a repository. -/
def keeping (machine : Machine World) (backendOf : Nat → Nat) (units i : Nat) (m : Memory) :
    Division World Unit where
  machine := machine
  backendOf := backendOf
  units := units
  sound w := ∃ m', w.memory? i = some m' ∧ m.Kept m'
  view _ _ := ()

variable {machine : Machine World} {backendOf : Nat → Nat} {units u i j : Nat} {m : Memory}
  {w w' : World} {α : Type} {directory : Option CredentialDirectory} {dry : Bool} {p : Profile}
  {projects : List ProjectSpec}

/-- A call to another backend, in memory or not, leaves a backend in memory as it is. -/
theorem memory?_serve_of_ne (hne : j ≠ i) (c : Call) (w : World) :
    (serve j c w).2.memory? i = w.memory? i := by
  unfold serve
  split
  · simp only [memory?, List.getElem?_set_ne hne]
  · rfl

theorem memory?_settle (directory : Option CredentialDirectory) (e : Effect) (w : World) :
    (settle directory e w).2.memory? i = w.memory? i := by
  rw [settle_eq]
  rfl

theorem acts_settle_keeping (hsettle : machine.settle = settle directory) (e : Effect)
    {Q : Except Error Unit → Unit → Prop} (hQ : ∀ out, Q out ()) :
    (keeping machine backendOf units i m).Acts u (machine.settle e) Q () := by
  rintro w ⟨m', hm', hk⟩ -
  rw [hsettle]
  exact ⟨⟨⟨m', (memory?_settle directory e w).trans hm', hk⟩, fun _ _ _ => rfl⟩, hQ _⟩

/-- A call to the backend that costs no repository. -/
theorem acts_sparing (hserve : machine.serve = serve) (hu : backendOf u = i) {c : Call}
    {Q : c.Answer → Unit → Prop}
    (hc : ∀ m', m.Kept m' → m.Kept (Memory.serve c m').2 ∧ Q (Memory.serve c m').1 ()) :
    (keeping machine backendOf units i m).Acts u (machine.serve (backendOf u) c) Q () := by
  rintro w ⟨m', hm', hk⟩ -
  obtain ⟨hkept, hQ⟩ := hc m' hk
  rw [hserve, hu]
  refine ⟨⟨⟨_, (memory?_serve hm' c i).trans (if_pos rfl), hkept⟩, fun _ _ _ => rfl⟩, ?_⟩
  rw [serve_eq hm']
  exact hQ

/-- A call to another backend. -/
theorem acts_elsewhere (hserve : machine.serve = serve) (hu : backendOf u ≠ i) {c : Call}
    {Q : c.Answer → Unit → Prop} (hQ : ∀ answer, Q answer ()) :
    (keeping machine backendOf units i m).Acts u (machine.serve (backendOf u) c) Q () := by
  rintro w ⟨m', hm', hk⟩ -
  rw [hserve]
  exact ⟨⟨⟨m', (memory?_serve_of_ne hu c w).trans hm', hk⟩, fun _ _ _ => rfl⟩, hQ _⟩

/-- **A unit of another backend** may do what it likes. -/
theorem secure_elsewhere (hserve : machine.serve = serve)
    (hsettle : machine.settle = settle directory) (hu : backendOf u ≠ i) :
    ∀ w : Work α, (keeping machine backendOf units i m).Secure u False (fun _ _ => True) w ()
  | .done _ => trivial
  | .check next => fun i _ => secure_elsewhere hserve hsettle hu (next i)
  | .call _ next => acts_elsewhere hserve hu fun a => secure_elsewhere hserve hsettle hu (next a)
  | .observe _ next =>
      ⟨fun _ i => secure_elsewhere hserve hsettle hu (next (.error i)),
        acts_elsewhere hserve hu fun a => secure_elsewhere hserve hsettle hu (next (.ok a))⟩
  | .settle e next =>
      acts_settle_keeping hsettle e fun out => secure_elsewhere hserve hsettle hu (next out)

theorem secure_spares (hserve : machine.serve = serve) (hu : backendOf u = i) :
    ∀ {t : Calls α}, t.Spares m →
      (keeping machine backendOf units i m).Secure u False (fun _ _ => True) (Work.acting t) ()
  | .done _, _ => trivial
  | .ask _ _, ht => acts_sparing hserve hu fun m' hk =>
      ⟨(ht m' hk).1, secure_spares hserve hu (ht m' hk).2⟩

theorem secure_sparesObserving (hserve : machine.serve = serve) (hu : backendOf u = i) :
    ∀ {t : Calls α}, t.Spares m →
      (keeping machine backendOf units i m).Secure u False (fun _ _ => True) (Work.observing t) ()
  | .done _, _ => trivial
  | .ask _ _, ht => Division.Secure.observing (fun _ _ => trivial)
      (acts_sparing hserve hu fun m' hk =>
        ⟨(ht m' hk).1, secure_sparesObserving hserve hu (ht m' hk).2⟩)

/-- The actions of a unit on the backend. -/
theorem secure_sparingActions (hserve : machine.serve = serve)
    (hsettle : machine.settle = settle directory) (hu : backendOf u = i)
    (hforce : p.registry.options.forceDelete = false) (actions : List Action) :
    (keeping machine backendOf units i m).Secure u False (fun _ _ => True)
      (Work.actions p dry actions) () := by
  refine (Division.secure_runActions (I := fun _ _ _ _ => True) trivial ?_).mono
    fun _ _ _ => trivial
  intro done s a rest _ _
  refine Division.secure_runAction (fun _ => trivial) (fun _ _ => trivial) (fun _ _ => trivial)
    (fun _ _ _ => trivial) fun _ _ _ => ?_
  refine (secure_spares hserve hu (Calls.spares_perform hforce a)).mono fun r _ _ => ?_
  cases r with
  | ok e => exact .ok (acts_settle_keeping hsettle e fun _ => trivial)
  | error err => trivial

/-- The unit of the backend in the first phase. -/
theorem secure_projectUnit_keeping (hserve : machine.serve = serve)
    (hsettle : machine.settle = settle directory) (hu : backendOf u = i)
    (hforce : p.registry.options.forceDelete = false) :
    (keeping machine backendOf units i m).Secure u False (fun _ _ => True)
      (projectUnit p projects dry) () := by
  intro signal _
  cases signal with
  | some i => trivial
  | none =>
    have hlisting : (Calls.one .listProjects).Spares m := Calls.spares_one rfl
    refine Division.Secure.bind (w := Work.observing (.one .listProjects))
      ((secure_sparesObserving hserve hu hlisting).mono fun r _ _ => ?_)
    match r with
    | .error i => trivial
    | .ok (.error e) => trivial
    | .ok (.ok observed) =>
      exact Division.Secure.bind ((secure_sparingActions hserve hsettle hu hforce _).mono
        fun _ _ _ => trivial)

/-- A unit of the backend in the second phase. -/
theorem secure_memberUnit_keeping (hserve : machine.serve = serve)
    (hsettle : machine.settle = settle directory) (hu : backendOf u = i)
    (hforce : p.registry.options.forceDelete = false) (spec : ProjectSpec) :
    (keeping machine backendOf units i m).Secure u False (fun _ _ => True)
      (memberUnit p spec dry) () := by
  have hactions : ∀ observed, (keeping machine backendOf units i m).Secure u False
      (fun _ _ => True) (memberActions p spec dry observed) () := fun observed =>
    Division.Secure.bind ((secure_sparingActions hserve hsettle hu hforce _).mono
      fun _ _ _ => trivial)
  intro signal _
  cases signal with
  | some i => trivial
  | none =>
    change Division.Secure _ u False _ (ite _ _ _) ()
    split
    · trivial
    · have hobserve : (observeMembers spec.name).Spares m :=
        (Calls.spares_one rfl).andThen fun _ => Calls.spares_one rfl
      refine Division.Secure.bind (w := Work.observing (observeMembers spec.name))
        ((secure_sparesObserving hserve hu hobserve).mono fun r _ _ => ?_)
      match r with
      | .error i => trivial
      | .ok (.ok observed) => exact hactions observed
      | .ok (.error (.notFound entity name)) =>
        change Division.Secure _ u False _ (ite _ _ _) ()
        split
        · exact hactions []
        · trivial
      | .ok (.error (.recoverable _)) | .ok (.error (.configuration _))
      | .ok (.error (.notImplemented ..)) => trivial

/-! ## Every step of every run -/

theorem forceDelete_profile {m₁ : Memory} (hw : w.memory? i = some m₁) (hk : m.Kept m₁)
    (hforce : m.registry.options.forceDelete = false)
    (hp : (w.backends.map Backend.profile)[i]? = some p) :
    p.registry.options.forceDelete = false := by
  rw [List.getElem?_map, backends_of_memory? hw] at hp
  obtain rfl : m₁.profile = p := Option.some.inj hp
  have hregistry : m₁.profile.registry = m.registry := Memory.registry_of_setup hk.setup
  rw [hregistry, hforce]

/-- The units of the first phase of a run. -/
theorem secure_projectJobs_keeping (hserve : machine.serve = serve)
    (hsettle : machine.settle = settle directory)
    (hw : (keeping machine backendOf units i m).sound w)
    (hforce : m.registry.options.forceDelete = false) {job : Job UnitResult}
    (hjob : (projectJobs (w.backends.map Backend.profile) projects dry)[u]? = some job)
    (hu : backendOf u = job.backend) :
    (keeping machine backendOf units i m).Secure u False (fun _ _ => True) job.work () := by
  obtain ⟨m₁, hm₁, hk⟩ := hw
  by_cases hbackend : backendOf u = i
  · rw [getElem?_projectJobs] at hjob
    obtain ⟨p, hp, rfl⟩ := Option.map_eq_some_iff.1 hjob
    obtain rfl : u = i := hu.symm.trans hbackend
    exact secure_projectUnit_keeping hserve hsettle hbackend (forceDelete_profile hm₁ hk hforce hp)
  · exact secure_elsewhere hserve hsettle hbackend job.work

/-- The units of the second phase of a run, whose profiles are those of its beginning. -/
theorem secure_memberJobs_keeping (hserve : machine.serve = serve)
    (hsettle : machine.settle = settle directory)
    (hw : (keeping machine backendOf units i m).sound w)
    (hforce : m.registry.options.forceDelete = false) {job : Job UnitResult}
    (hjob : (memberJobs (w.backends.map Backend.profile) projects dry)[u]? = some job)
    (hu : backendOf u = job.backend) :
    (keeping machine backendOf units i m).Secure u False (fun _ _ => True) job.work () := by
  obtain ⟨m₁, hm₁, hk⟩ := hw
  by_cases hbackend : backendOf u = i
  · rw [memberJobs_eq, List.getElem?_map] at hjob
    obtain ⟨⟨j, p, spec⟩, hspot, rfl⟩ := Option.map_eq_some_iff.1 hjob
    obtain ⟨hp, -⟩ := mem_memberSpots.1 (List.mem_of_getElem? hspot)
    obtain rfl : j = i := hu.symm.trans hbackend
    exact secure_memberUnit_keeping hserve hsettle hbackend
      (forceDelete_profile hm₁ hk hforce hp) spec
  · exact secure_elsewhere hserve hsettle hbackend job.work

/-- **A phase keeps the repositories** of a backend all of whose units do, at each of its steps and
at its end. -/
theorem kept_of_phase {signals : Signals} {concurrent now : Nat} {jobs : List (Job UnitResult)}
    (hw : (keeping machine (Job.backendOf jobs) jobs.length i m).sound w)
    (heach : ∀ u job, jobs[u]? = some job → Job.backendOf jobs u = job.backend →
      (keeping machine (Job.backendOf jobs) jobs.length i m).Secure u False (fun _ _ => True)
        job.work ()) :
    (∀ t ∈ Schedule.phaseTurns machine signals concurrent now jobs w,
        ∃ m', t.world.memory? i = some m' ∧ m.Kept m')
      ∧ ∃ m', (Schedule.phase machine signals concurrent now jobs w).world.memory? i = some m'
          ∧ m.Kept m' :=
  Division.phase_sound (d := keeping machine (Job.backendOf jobs) jobs.length i m)
    (Q := fun _ _ _ => True) rfl rfl hw fun u job hjob => heach u job hjob (Job.backendOf_eq hjob)

variable {settings : RunSettings} {cancel : Option Nat}

/-- **A run keeps every repository** of a backend without forced deletion, at each of its steps and
at its end. -/
theorem kept_of_run {m₁ : Memory} (hw : w.memory? i = some m₁) (hk : m.Kept m₁)
    (hforce : m.registry.options.forceDelete = false) :
    (∀ t ∈ w.turns directory settings cancel projects,
        ∃ m', t.world.memory? i = some m' ∧ m.Kept m')
      ∧ ∃ m', (w.reconcile directory settings cancel projects).2.memory? i = some m'
          ∧ m.Kept m' := by
  have hfirst : (∀ t ∈ w.projectTurns directory settings cancel projects,
        ∃ m', t.world.memory? i = some m' ∧ m.Kept m')
      ∧ ∃ m', (w.projectPhase directory settings cancel projects).world.memory? i = some m'
          ∧ m.Kept m' :=
    kept_of_phase ⟨m₁, hw, hk⟩ fun _ _ hjob hu =>
      secure_projectJobs_keeping rfl rfl ⟨m₁, hw, hk⟩ hforce hjob hu
  have hsecond : (∀ t ∈ w.memberTurns directory settings cancel projects,
        ∃ m', t.world.memory? i = some m' ∧ m.Kept m')
      ∧ ∃ m', (w.memberPhase directory settings cancel projects).world.memory? i = some m'
          ∧ m.Kept m' :=
    kept_of_phase hfirst.2 fun _ _ hjob hu =>
      secure_memberJobs_keeping rfl rfl ⟨m₁, hw, hk⟩ hforce hjob hu
  refine ⟨fun t ht => ?_, hsecond.2⟩
  rcases List.mem_append.1 ht with ht | ht
  · exact hfirst.1 t ht
  · exact hsecond.1 t ht

/-- **The worlds that a sequence of runs passes through** — every step of every run, whatever the
run is told, however it is carried out and whatever interrupts it. A cancellation of a run stays
signalled to its end (`Signals`). -/
inductive Visits : World → World → Prop
  | here (w : World) : Visits w w
  | within {w : World} {directory : Option CredentialDirectory} {settings : RunSettings}
      {cancel : Option Nat} {projects : List ProjectSpec} {t : Turn World UnitResult}
      (ht : t ∈ w.turns directory settings cancel projects) : Visits w t.world
  | later {w w' : World} (directory : Option CredentialDirectory) (settings : RunSettings)
      (cancel : Option Nat) (projects : List ProjectSpec)
      (h : Visits (w.reconcile directory settings cancel projects).2 w') : Visits w w'

/-- **Sequences of runs keep every repository** of a backend without forced deletion. -/
theorem kept_of_visits (h : w.Visits w') :
    ∀ {m₁ : Memory}, w.memory? i = some m₁ → m.Kept m₁ →
      m.registry.options.forceDelete = false → ∃ m', w'.memory? i = some m' ∧ m.Kept m' := by
  induction h with
  | here w => exact fun hw hk _ => ⟨_, hw, hk⟩
  | within ht => exact fun hw hk hforce => (kept_of_run hw hk hforce).1 _ ht
  | later directory settings cancel projects _ ih =>
    intro m₁ hw hk hforce
    obtain ⟨m₂, hw₂, hk₂⟩ := (kept_of_run hw hk hforce).2
    exact ih hw₂ hk₂ hforce

end World

/-- **Forced deletion is not in effect** — its annotation is there and says anything but `true`, or
there is none and the command line does not ask for it. -/
def Options.ForceDeleteOff (defaults : Defaults) (annotations : Keyed String) : Prop :=
  match annotations.get? forceDeleteKey with
  | some value => Text.trim value ≠ "true"
  | none => defaults.forceDelete = false

theorem Options.forceDelete_of_off {defaults : Defaults} {annotations : Keyed String}
    (h : ForceDeleteOff defaults annotations) :
    (resolve defaults annotations).forceDelete = false := by
  unfold ForceDeleteOff at h
  change resolveForceDelete defaults annotations = false
  unfold resolveForceDelete
  split
  · next value hvalue =>
    rw [hvalue] at h
    exact beq_eq_false_iff_ne.2 h
  · next hnone =>
    rw [hnone] at h
    exact h

/-- **No image is deleted without forced deletion** — on a registry for which it is not in effect,
every repository is still in its project at every step of every sequence of runs, each of them
cancelled for good (`Signals`) or not at all. -/
theorem World.repositories_kept {w w' : World} {i : Nat} {m : Memory} {defaults : Defaults}
    {spec : RegistrySpec} (hm : w.memory? i = some m) (hspec : m.registry = .ofSpec defaults spec)
    (hoff : Options.ForceDeleteOff defaults spec.annotations) (hvisits : w.Visits w') :
    ∃ m', w'.memory? i = some m' ∧ ∀ name h, m.projects.get? name = some h →
      ∀ r ∈ h.repositories, ∃ h', m'.projects.get? name = some h' ∧ r ∈ h'.repositories := by
  have hforce : m.registry.options.forceDelete = false := by
    rw [hspec]
    exact Options.forceDelete_of_off hoff
  obtain ⟨m', hm', hkept⟩ := kept_of_visits hvisits hm (.refl m) hforce
  refine ⟨m', hm', fun name h hh r hr => ?_⟩
  obtain ⟨h', hh', heq⟩ := hkept.repositories name h hh (List.ne_nil_of_mem hr)
  exact ⟨h', hh', heq ▸ hr⟩

/-- A declaration whose annotation speaks up against the command line. -/
def guardedSpec : RegistrySpec :=
  ⟨"edge", .harbor, "https://edge.example.com", ⟨"admin", "secret"⟩, .leaf,
    .ofList [(Options.forceDeleteKey, " True ")]⟩

/-- A backend with a project that is expected nowhere and owns a repository. -/
def guardedBackend : Memory :=
  (Memory.ofRegistry (.ofSpec ⟨true⟩ guardedSpec)).addProject "old" ["app"]

theorem World.repositories_kept_guarded :
    ∃ m', (((ofMemories [guardedBackend]).reconcile none .standard none []).2.reconcile none
        .standard (some 0) []).2.memory? 0 = some m' ∧
      ∀ name h, guardedBackend.projects.get? name = some h →
        ∀ r ∈ h.repositories, ∃ h', m'.projects.get? name = some h' ∧ r ∈ h'.repositories := by
  have hoff : Options.ForceDeleteOff ⟨true⟩ guardedSpec.annotations := by
    change Text.trim " True " ≠ "true"
    decide
  exact repositories_kept rfl rfl hoff
    (.later none .standard none [] (.later none .standard (some 0) [] (.here _)))

end RegistryFleet
