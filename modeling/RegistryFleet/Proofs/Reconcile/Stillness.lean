import RegistryFleet.Proofs.Reconcile.MemberPhase
import RegistryFleet.Proofs.Reconcile.ProjectPhase

/-!
# Proofs/Reconcile/Stillness — runs that leave every backend as it is

* `Calls.Quiet` — no call that a tree makes changes the backend.
* `World.reconcile_still` — where every action that a run works out is quiet, the run changes no
  backend, however it is carried out and whatever interrupts it.
-/

namespace RegistryFleet

/-- **No call of the tree changes the backend.** -/
def Calls.Quiet {α : Type} (m : Memory) : Calls α → Prop
  | .done _ => True
  | .ask c next => (Memory.serve c m).2 = m ∧ Quiet m (next (Memory.serve c m).1)

/-- **Nothing is left to do on a backend** that could be done: the actions that lead to the expected
projects and their members are quiet. -/
structure Memory.AtRest (projects : List ProjectSpec) (m : Memory) : Prop where
  projectSteps : ∀ a ∈ Action.projectSteps m.projects.keys
      ((expectedOn m.registry.name projects).map ProjectSpec.name), (a.perform m.profile).Quiet m
  memberSteps : ∀ spec ∈ expectedOn m.registry.name projects, ∀ h,
    m.projects.get? spec.name = some h →
      ∀ a ∈ Action.memberSteps spec.name h.members spec.members, (a.perform m.profile).Quiet m

namespace World

/-- Units that see nothing, and none of which changes a backend. -/
def still (machine : Machine World) (backendOf : Nat → Nat) (units : Nat)
    (backends : List Backend) : Division World Unit where
  machine := machine
  backendOf := backendOf
  units := units
  sound w := w.backends = backends
  view _ _ := ()

variable {machine : Machine World} {backendOf : Nat → Nat} {units u i : Nat} {ms : List Memory}
  {m : Memory} {α : Type} {directory : Option CredentialDirectory} {dry : Bool} {p : Profile}
  {projects : List ProjectSpec}

/-- A call that changes nothing. -/
theorem acts_quiet (hserve : machine.serve = serve) (hu : backendOf u = i) (hm : ms[i]? = some m)
    {c : Call} (hc : (Memory.serve c m).2 = m) {Q : c.Answer → Unit → Prop}
    (hQ : Q (Memory.serve c m).1 ()) :
    (still machine backendOf units (ms.map .memory)).Acts u (machine.serve (backendOf u) c) Q ()
    := by
  intro w hsound _
  have hmem : w.memory? i = some m := (memory?_of_backends hsound i).trans hm
  rw [hserve, hu, serve_eq hmem]
  refine ⟨⟨?_, fun _ _ _ => rfl⟩, hQ⟩
  obtain ⟨hlt, rfl⟩ := List.getElem?_eq_some_iff.1 hm
  change w.backends.set i (.memory (Memory.serve c ms[i]).2) = ms.map .memory
  rw [hc, show w.backends = ms.map .memory from hsound, ← List.map_set, List.set_getElem_self]

theorem secure_quiet (hserve : machine.serve = serve) (hu : backendOf u = i)
    (hm : ms[i]? = some m) : ∀ {t : Calls α}, t.Quiet m →
      (still machine backendOf units (ms.map .memory)).Secure u False (fun _ _ => True)
        (Work.acting t) ()
  | .done _, _ => trivial
  | .ask _ _, ⟨hc, hnext⟩ => acts_quiet hserve hu hm hc (secure_quiet hserve hu hm hnext)

/-- Quiet actions, one after the other. -/
theorem secure_quietActions (hserve : machine.serve = serve)
    (hsettle : machine.settle = settle directory) (hu : backendOf u = i) (hm : ms[i]? = some m)
    {actions : List Action} (h : dry = false → ∀ a ∈ actions, (a.perform p).Quiet m) :
    (still machine backendOf units (ms.map .memory)).Secure u False (fun _ _ => True)
      (Work.actions p dry actions) () := by
  refine Division.Secure.mono (fun _ _ _ => trivial) (Division.secure_runActions
    (I := fun _ _ rest _ => dry = false → ∀ a ∈ rest, (a.perform p).Quiet m) h ?_)
  intro done s a rest _ hrest
  have hlater : dry = false → ∀ b ∈ rest, (b.perform p).Quiet m :=
    fun hdry b hb => hrest hdry b (List.mem_cons_of_mem a hb)
  refine Division.secure_runAction (fun _ => hlater) (fun _ _ => hlater) (fun _ _ => hlater)
    (fun _ _ _ => hlater) fun _ hdry _ => ?_
  refine (secure_quiet hserve hu hm (hrest hdry a List.mem_cons_self)).mono fun r _ _ => ?_
  cases r with
  | ok e =>
    refine .ok fun w hsound _ => ⟨⟨?_, fun _ _ _ => rfl⟩, hlater⟩
    change (machine.settle e w).2.backends = _
    rw [hsettle, settle_eq]
    exact hsound
  | error err => exact hlater

/-- A unit of the first phase that finds nothing to do. -/
theorem secure_projectUnit_still (hserve : machine.serve = serve)
    (hsettle : machine.settle = settle directory) (hu : backendOf u = i) (hm : ms[i]? = some m)
    (h : m.AtRest projects) :
    (still machine backendOf units (ms.map .memory)).Secure u False (fun _ _ => True)
      (projectUnit m.profile projects dry) () := by
  intro i _
  cases i with
  | some i => trivial
  | none =>
    refine Division.Secure.bind (w := Work.observing (.one .listProjects)) ?_
    refine Division.Secure.observing (fun _ _ => trivial) (acts_quiet hserve hu hm rfl ?_)
    refine Division.Secure.bind ?_
    rw [Memory.names_listing]
    exact (secure_quietActions hserve hsettle hu hm fun _ => h.projectSteps).mono
      fun _ _ _ => trivial

/-- A unit of the second phase that finds nothing to do. -/
theorem secure_memberUnit_still (hserve : machine.serve = serve)
    (hsettle : machine.settle = settle directory) (hu : backendOf u = i) (hm : ms[i]? = some m)
    (h : m.AtRest projects) {spec : ProjectSpec}
    (hspec : spec ∈ expectedOn m.registry.name projects) :
    (still machine backendOf units (ms.map .memory)).Secure u False (fun _ _ => True)
      (memberUnit m.profile spec dry) () := by
  intro i _
  cases i with
  | some i => trivial
  | none =>
    change Division.Secure _ u False _ (ite _ _ _) ()
    split
    · trivial
    · refine Division.Secure.bind (w := Work.observing (observeMembers spec.name)) ?_
      refine Division.Secure.observing (c := .findProject spec.name) (fun _ _ => trivial)
        (acts_quiet (c := .findProject spec.name) hserve hu hm rfl ?_)
      rw [Memory.serve_findProject]
      cases hproject : m.projects.get? spec.name with
      | none =>
        change Division.Secure _ u False _ (ite _ _ _) ()
        split
        · next hdry =>
          refine Division.Secure.bind ((secure_quietActions hserve hsettle hu hm
            fun hdry' => ?_).mono fun _ _ _ => trivial)
          rw [hdry] at hdry'
          cases hdry'
        · trivial
      | some g =>
        refine Division.Secure.observing (c := .members (.named spec.name)) (fun _ _ => trivial)
          (acts_quiet (c := .members (.named spec.name)) hserve hu hm rfl ?_)
        rw [Memory.serve_members hproject]
        exact Division.Secure.bind ((secure_quietActions hserve hsettle hu hm
          fun _ => h.memberSteps spec hspec g hproject).mono fun _ _ _ => trivial)

/-- A phase none of whose units changes a backend. -/
theorem backends_phase_still {w w' : World} {signals : Signals} {concurrent now : Nat}
    {jobs : List (Job UnitResult)} (hw' : w'.backends = ms.map .memory)
    (heach : ∀ u job, jobs[u]? = some job →
      (still (w.machine directory) (Job.backendOf jobs) jobs.length (ms.map .memory)).Secure u False
        (fun _ _ => True) job.work ()) :
    (Schedule.phase (w.machine directory) signals concurrent now jobs w').world.backends
      = ms.map .memory :=
  (Division.phase_secured (still (w.machine directory) (Job.backendOf jobs) jobs.length
    (ms.map .memory)) False (fun _ _ _ => True) rfl rfl hw' (fun hc => hc.elim) heach).sound

/-- **A run that finds nothing to do** leaves every backend as it is. -/
theorem reconcile_still {w : World} (hw : w.backends = ms.map .memory)
    (h : ∀ m ∈ ms, m.AtRest projects) (directory : Option CredentialDirectory)
    (settings : RunSettings) (cancel : Option Nat) :
    (w.reconcile directory settings cancel projects).2.backends = w.backends := by
  have hprofiles : w.backends.map Backend.profile = ms.map Memory.profile :=
    profiles_of_setups hw rfl
  have hsettle : (w.machine directory).settle = settle directory := rfl
  have hfirst : (w.projectPhase directory settings cancel projects).world.backends
      = ms.map .memory := by
    refine backends_phase_still hw fun u job hjob => ?_
    have hu := Job.backendOf_eq hjob
    rw [getElem?_projectJobs, hprofiles, List.getElem?_map, Option.map_map] at hjob
    obtain ⟨m, hm, rfl⟩ := Option.map_eq_some_iff.1 hjob
    exact secure_projectUnit_still rfl hsettle hu hm (h m (List.mem_of_getElem? hm))
  rw [reconcile_eq, hw]
  refine backends_phase_still hfirst fun u job hjob => ?_
  have hu := Job.backendOf_eq hjob
  rw [memberJobs_eq, hprofiles, List.getElem?_map] at hjob
  obtain ⟨⟨i, p, spec⟩, hspot, rfl⟩ := Option.map_eq_some_iff.1 hjob
  obtain ⟨m, hm, rfl, hspec⟩ := getElem?_memberSpots hspot
  exact secure_memberUnit_still rfl hsettle hu hm (h m (List.mem_of_getElem? hm)) hspec

end World

end RegistryFleet
