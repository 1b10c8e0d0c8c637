import RegistryFleet.Proofs.Fleet.Snapshot
import RegistryFleet.Proofs.Reconcile.Stillness

/-!
# Proofs/Reconcile/Convergence — an undisturbed run brings every backend to rest

* `Converged` — what a backend has become: projects and members as expected, but for deletions that
  repositories are in the way of and for members that the backend rejects.
* `Converged.atRest` — on such a backend nothing is left to do.
* `World.reconcile_converges` — an undisturbed run makes every backend so, and no later run changes
  it again.
-/

namespace RegistryFleet

/-- **What an undisturbed run makes of a backend**, from what it was. -/
structure Converged (projects : List ProjectSpec) (before after : Memory) : Prop where
  setup : after.setup = before.setup
  /-- Every expected project is there. -/
  present : ∀ spec ∈ expectedOn before.registry.name projects, ∃ h,
    after.projects.get? spec.name = some h
  /-- Any other project is gone, unless repositories are in the way. -/
  gone : ∀ n, n ∉ (expectedOn before.registry.name projects).map ProjectSpec.name →
    (∀ h, before.projects.get? n = some h → ¬ Memory.Refused before.profile h) →
      after.projects.get? n = none
  /-- A project with repositories in the way keeps them and its members. -/
  kept : ∀ n h, n ∉ (expectedOn before.registry.name projects).map ProjectSpec.name →
    before.projects.get? n = some h → Memory.Refused before.profile h →
      after.projects.get? n = some h
  /-- The bindings of a member name are the expected ones, or those before if the backend rejects
  the name. -/
  bound : ∀ spec ∈ expectedOn before.registry.name projects, ∀ h,
    after.projects.get? spec.name = some h → ∀ b, b ∈ h.members
      ↔ if before.failing.contains b.name then
          b ∈ ((before.projects.get? spec.name).elim [] Holding.members)
        else b ∈ spec.members

/-! ## Nothing is left to do -/

namespace Memory

variable {m : Memory} {p : Profile} {h : Holding} {name : String}

/-- A refused deletion is quiet. -/
theorem quiet_deleteProject (hm : m.projects.get? name = some h) (hr : Refused p h) :
    ((Action.deleteProject name).perform p).Quiet m := by
  refine ⟨rfl, ?_⟩
  rw [serve_findProject, hm]
  refine ⟨rfl, ?_⟩
  rw [serve_listRepositories hm]
  have hrefused : (!(h.repositories.map (Repository.mk name)).isEmpty
      && !p.registry.options.forceDelete) = true := by
    simp [hr.1, hr.2]
  change Calls.Quiet m (((Calls.bind (ite _ _ _) _)))
  rw [if_pos hrefused]
  trivial

/-- Looking a project up is quiet. -/
theorem quiet_lookUp {t : Project → Calls (Except Error Effect)}
    (ht : (t (.named name)).Quiet m) : ((Action.lookUp p name).andThen t).Quiet m := by
  refine ⟨rfl, ?_⟩
  rw [serve_findProject]
  cases m.projects.get? name with
  | none => trivial
  | some h => exact ht

/-- A change of a member that the backend rejects is quiet. -/
theorem quiet_memberChange {c : Change Member} (hc : m.failing.contains c.element.name = true) :
    ((Action.ofMemberChange name c).perform p).Quiet m := by
  by_cases hp : p.hasMembers = true
  · cases c with
    | add b =>
      have hserve : serve (.assign (.named name) b) m = (.error (rejection b), m) :=
        serve_assign_of_failing hc
      rw [Action.ofMemberChange, Action.perform, Profile.withMembers, if_pos hp]
      exact quiet_lookUp ⟨by rw [hserve], by rw [hserve]; trivial⟩
    | remove b =>
      have hserve : serve (.unassign (.named name) b) m = (.error (rejection b), m) :=
        serve_unassign_of_failing hc
      rw [Action.ofMemberChange, Action.perform, Profile.withMembers, if_pos hp]
      exact quiet_lookUp ⟨by rw [hserve], by rw [hserve]; trivial⟩
  · cases c with
    | add b =>
      rw [Action.ofMemberChange, Action.perform, Profile.withMembers, if_neg hp]
      trivial
    | remove b =>
      rw [Action.ofMemberChange, Action.perform, Profile.withMembers, if_neg hp]
      trivial

end Memory

namespace Converged

variable {projects : List ProjectSpec} {before after : Memory}

/-- The steps that are left for the projects are deletions that are refused. -/
theorem quiet_projectStep (h : Converged projects before after) {a : Action}
    (ha : ProjectStep after ((expectedOn before.registry.name projects).map ProjectSpec.name) a) :
    (a.perform after.profile).Quiet after := by
  cases ha with
  | create name hexpected hnone =>
    obtain ⟨spec, hspec, rfl⟩ := List.mem_map.1 hexpected
    obtain ⟨g, hg⟩ := h.present spec hspec
    rw [hnone] at hg
    cases hg
  | delete name hexpected g hg =>
    refine Memory.quiet_deleteProject hg ?_
    rw [Memory.profile_of_setup h.setup]
    by_contra hfree
    have hgone := h.gone name hexpected fun g₀ hg₀ hr => hfree <| by
      rw [h.kept name g₀ hexpected hg₀ hr] at hg
      exact Option.some.inj hg ▸ hr
    rw [hgone] at hg
    cases hg

/-- The changes that are left for the members of a project are of names that the backend rejects. -/
theorem rejected_of_mem_diff (h : Converged projects before after) {spec : ProjectSpec}
    (hspec : spec ∈ expectedOn before.registry.name projects) {g : Holding}
    (hg : after.projects.get? spec.name = some g) {c : Change Member}
    (hc : c ∈ diff g.members spec.members) : before.failing.contains c.element.name = true := by
  by_contra hfree
  have hbound := h.bound spec hspec g hg c.element
  rw [if_neg hfree] at hbound
  rcases mem_diff.1 hc with ⟨b, rfl, hb, hnot⟩ | ⟨b, rfl, hb, hnot⟩
  · exact hnot (hbound.1 hb)
  · exact hnot (hbound.2 hb)

/-- **Nothing is left to do** on a backend that an undisturbed run has been over. -/
theorem atRest (h : Converged projects before after) : after.AtRest projects := by
  have hregistry := Memory.registry_of_setup h.setup
  constructor
  · intro a ha
    rw [hregistry] at ha
    exact h.quiet_projectStep (ProjectStep.of_mem_steps ha)
  · intro spec hspec g hg a ha
    rw [hregistry] at hspec
    obtain ⟨c, hc, rfl⟩ := List.mem_map.1 ha
    refine Memory.quiet_memberChange ?_
    rw [Memory.failing_of_setup h.setup]
    exact h.rejected_of_mem_diff hspec hg hc

end Converged

/-- What the two phases make of a backend. -/
theorem converged_of_phases {projects : List ProjectSpec} {m m₁ m₂ : Memory}
    (hcapable : m.creates = true ∧ m.hasMembers = true) (hsetup₁ : m₁.setup = m.setup)
    (hsetup₂ : m₂.setup = m₁.setup)
    (hprojects : ∀ n, m₁.projects.get? n = Memory.projectAfter m.profile
      ((expectedOn m.registry.name projects).map ProjectSpec.name) n (m.projects.get? n))
    (hothers : ∀ n, n ∉ (expectedOn m₁.registry.name projects).map ProjectSpec.name →
      m₂.projects.get? n = m₁.projects.get? n)
    (hspecs : ∀ spec ∈ expectedOn m₁.registry.name projects, m₁.hasMembers = true → ∀ h,
      m₁.projects.get? spec.name = some h → ∃ h', m₂.projects.get? spec.name = some h'
        ∧ h'.repositories = h.repositories
        ∧ ∀ b, b ∈ h'.members
          ↔ if m₁.failing.contains b.name then b ∈ h.members else b ∈ spec.members) :
    Converged projects m m₂ := by
  have hprofile := Memory.profile_of_setup hsetup₁
  have hregistry := Memory.registry_of_setup hsetup₁
  have hhas : m₁.hasMembers = true := (congrArg Profile.hasMembers hprofile).trans hcapable.2
  rw [hregistry] at hothers hspecs
  have hexpected : ∀ spec ∈ expectedOn m.registry.name projects, m₁.projects.get? spec.name
      = some ((m.projects.get? spec.name).getD .empty) := fun spec hspec => by
    have hname := List.mem_map_of_mem (f := ProjectSpec.name) hspec
    rw [hprojects]
    cases m.projects.get? spec.name with
    | none => exact if_pos ⟨hname, hcapable.1⟩
    | some h => exact if_pos (.inl hname)
  refine ⟨hsetup₂.trans hsetup₁, fun spec hspec => ?_, fun n hn hfree => ?_,
    fun n h hn hh hr => ?_, fun spec hspec h hh b => ?_⟩
  · obtain ⟨h', hh', -⟩ := hspecs spec hspec hhas _ (hexpected spec hspec)
    exact ⟨h', hh'⟩
  · rw [hothers n hn, hprojects]
    cases hh : m.projects.get? n with
    | none => exact if_neg fun h => hn h.1
    | some h => exact if_neg fun hor => hor.elim hn (hfree h hh)
  · rw [hothers n hn, hprojects, hh]
    exact if_pos (.inr hr)
  · obtain ⟨h', hh', -, hmembers⟩ := hspecs spec hspec hhas _ (hexpected spec hspec)
    obtain rfl := Option.some.inj (hh.symm.trans hh')
    rw [hmembers, Memory.failing_of_setup hsetup₁]
    cases m.projects.get? spec.name <;> rfl

/-! ## An undisturbed run -/

namespace World

/-- When a run ends. -/
def finish (w : World) (directory : Option CredentialDirectory) (settings : RunSettings)
    (cancel : Option Nat) (projects : List ProjectSpec) : Nat :=
  (w.memberPhase directory settings cancel projects).now

/-- **No signal has come by the end of the run**, and none before, since a signal stays. -/
def Undisturbed (w : World) (directory : Option CredentialDirectory) (settings : RunSettings)
    (cancel : Option Nat) (projects : List ProjectSpec) : Prop :=
  (Signals.mk settings.deadline cancel).at? (w.finish directory settings cancel projects) = none

variable {w : World} {ms : List Memory} {directory : Option CredentialDirectory}
  {settings : RunSettings} {cancel : Option Nat} {registries : List RegistrySpec}
  {projects : List ProjectSpec}

/-- **Every late enough deadline leaves a run undisturbed** that is not cancelled. -/
theorem undisturbed_of_late (w : World) (directory : Option CredentialDirectory)
    (settings : RunSettings) (projects : List ProjectSpec) :
    ∃ late, ∀ deadline, late ≤ deadline →
      w.Undisturbed directory { settings with deadline := deadline } none projects := by
  obtain ⟨s₁, h₁⟩ := Schedule.phase_late (w.machine directory) settings.concurrent 0
    (projectJobs (w.backends.map Backend.profile) projects settings.dry) w
  obtain ⟨s₂, h₂⟩ := Schedule.phase_late (w.machine directory) settings.concurrent s₁.now
    (memberJobs (w.backends.map Backend.profile) projects settings.dry) s₁.world
  refine Filter.eventually_atTop.1 ?_
  filter_upwards [h₁, h₂, Filter.eventually_gt_atTop s₂.now] with deadline h₁ h₂ hlate
  have hfinish : w.finish directory { settings with deadline := deadline } none projects
      = s₂.now := by
    simp only [finish, memberPhase, projectPhase, h₁, h₂]
  rw [Undisturbed, hfinish]
  simp [Signals.at?, Nat.not_le.2 hlate]

/-- A run over backends that answer at once is undisturbed. -/
theorem undisturbed_of_instant (hlatency : ∀ b ∈ w.backends, b.latency = 0)
    (hdeadline : 0 < settings.deadline) : w.Undisturbed directory settings none projects := by
  have hmachine : ∀ i, (w.machine directory).latency i = 0 := fun i => by
    change (w.backends[i]?).elim 0 Backend.latency = 0
    cases hb : w.backends[i]? with
    | none => rfl
    | some b => exact hlatency b (List.mem_of_getElem? hb)
  have hfinish : w.finish directory settings none projects = 0 :=
    (Schedule.now_phase_of_instant hmachine).trans (Schedule.now_phase_of_instant hmachine)
  rw [Undisturbed, hfinish]
  simp [Signals.at?, Nat.not_le.2 hdeadline]

/-- **The aim of an undisturbed unit** of the first phase: every project becomes what it is to. -/
theorem projectAim_undisturbed {m : Memory} (expected : List String)
    (hrepositories : ∀ n h, m.projects.get? n = some h → h.repositories.Nodup) :
    ProjectAim True m.profile m expected (fun _ => False)
      fun n o => o = Memory.projectAfter m.profile expected n (m.projects.get? n) where
  interrupted hnot := absurd trivial hnot
  untouched n hn := by
    cases hg : m.projects.get? n with
    | none =>
      refine (if_neg fun h => ?_).symm
      obtain ⟨g, hg'⟩ := hn.2 h.1
      rw [hg] at hg'
      cases hg'
    | some g => exact (if_pos (.inl (hn.1 ⟨g, hg⟩))).symm
  stepped a m' m'' r hstep hsame hrun := .inl <| by
    have hafter := (Memory.run_projectStep (hstep.congr hsame) hrun).after fun h hh =>
      hrepositories a.project h (hsame ▸ hh)
    rw [hafter, hsame]

/-- **The first phase of an undisturbed run.** -/
theorem projectPhase_undisturbed (hw : w.backends = ms.map .memory)
    (hchecked : (Snapshot.mk registries projects).check = .ok ())
    (hsettings : settings.check = .ok ()) (hdry : settings.dry = false)
    (hrepositories : ∀ m ∈ ms, ∀ n h, m.projects.get? n = some h → h.repositories.Nodup)
    (hundisturbed : w.Undisturbed directory settings cancel projects) :
    ∃ ms₁ : List Memory,
      (w.projectPhase directory settings cancel projects).world.backends = ms₁.map .memory
      ∧ ms₁.map Memory.setup = ms.map Memory.setup
      ∧ (w.projectPhase directory settings cancel projects).world.files = w.files
      ∧ ∀ (i : Nat) (m m₁ : Memory), ms[i]? = some m → ms₁[i]? = some m₁ → ∀ n,
        m₁.projects.get? n = Memory.projectAfter m.profile
          ((expectedOn m.registry.name projects).map ProjectSpec.name) n (m.projects.get? n) := by
  have hcalm : True → (Signals.mk settings.deadline cancel).at?
      (w.projectPhase directory settings cancel projects).now = none := fun _ =>
    Signals.at?_eq_none_of_le hundisturbed Schedule.now_le_phase
  obtain ⟨ms₁, vals, hw₁, hsetup, hfiles, -, hends⟩ := projectPhase_secure hw
    (RunSettings.concurrent_pos hsettings) hdry hcalm
    (fun m hm => projectAim_undisturbed _ (hrepositories m hm)) (Snapshot.nodup_expectedOn hchecked)
  refine ⟨ms₁, hw₁, hsetup, hfiles, fun i m m₁ hm hm₁ => ?_⟩
  obtain ⟨r, -, ⟨hnot, -⟩ | ⟨-, _, -, hbad⟩ | hheld⟩ := hends i m m₁ hm hm₁
  · exact absurd trivial hnot
  · exact hbad.elim
  · exact hheld

/-- Members that the backend does not reject. -/
def kept (m : Memory) (b : Member) : Bool := !m.failing.contains b.name

/-- **What an undisturbed second phase aims at**: the changes of a project lead from the members
before to the expected ones, but for those that the backend rejects. -/
def undisturbedPlan : MemberPlan Unit where
  calm := True
  Bad _ := False
  Passed m n := m.failing.contains n = true
  Comes _ out _ _ := ∀ err, out = .error err → err.isFatal = false
  Held _ m spec h members _ rest :=
    Change.OnTheWay (kept m) h.members spec.members members rest

theorem memberAim_undisturbed (i : Nat) (m : Memory) (spec : ProjectSpec) (h : Holding) :
    MemberAim undisturbedPlan.calm m.failing undisturbedPlan.Bad (undisturbedPlan.Passed m)
      undisturbedPlan.Comes (undisturbedPlan.Held i m spec h) where
  interrupted hnot := absurd trivial hnot
  passed _ _ c _ h hc := h.pass (by rw [kept, hc]; rfl)
  failing _ h := .inl h
  absent _ _ b _ h hkept hb := absurd (h.mem_of_remove (by rw [kept, hkept]; rfl)) hb
  carriedOut _ _ c _ _ _ h hkept hout := .inl ⟨h.carry (by rw [kept, hkept]; rfl), hout⟩

theorem undisturbedPlan_fits (d : CredentialDirectory) (files : Files) :
    undisturbedPlan.Fits .blank (some d) projects ms files where
  comes _ _ _ _ _ _ _ _ _ _ _ _ _ :=
    ⟨trivial, fun _ _ _ => rfl, fun _ => Effect.isFatal_of_applied⟩
  aim i m spec h _ _ _ _ := ⟨memberAim_undisturbed i m spec h, .start _ _ _⟩

/-- **The second phase of an undisturbed run.** -/
theorem memberPhase_undisturbed {d : CredentialDirectory} {ms₁ : List Memory}
    (hw : w.backends = ms.map .memory)
    (hw₁ : (w.projectPhase (some d) settings cancel projects).world.backends = ms₁.map .memory)
    (hsetup : ms₁.map Memory.setup = ms.map Memory.setup)
    (hchecked : (Snapshot.mk registries projects).check = .ok ())
    (hsettings : settings.check = .ok ()) (hdry : settings.dry = false)
    (hundisturbed : w.Undisturbed (some d) settings cancel projects) :
    ∃ ms₂ : List Memory,
      (w.memberPhase (some d) settings cancel projects).world.backends = ms₂.map .memory
      ∧ ms₂.map Memory.setup = ms₁.map Memory.setup
      ∧ ∀ (i : Nat) (m₁ m₂ : Memory), ms₁[i]? = some m₁ → ms₂[i]? = some m₂ →
        (∀ n, n ∉ (expectedOn m₁.registry.name projects).map ProjectSpec.name →
          m₂.projects.get? n = m₁.projects.get? n)
        ∧ ∀ spec ∈ expectedOn m₁.registry.name projects, m₁.hasMembers = true → ∀ h,
          m₁.projects.get? spec.name = some h → ∃ h', m₂.projects.get? spec.name = some h'
            ∧ h'.repositories = h.repositories
            ∧ ∀ b, b ∈ h'.members
              ↔ if m₁.failing.contains b.name then b ∈ h.members else b ∈ spec.members := by
  obtain ⟨ms₂, vals, hw₂, hsetup₂, -, -, hends⟩ := memberPhase_secure undisturbedPlan .blank hw
    hw₁ hsetup trivial (RunSettings.concurrent_pos hsettings) hdry (fun _ => hundisturbed)
    (Snapshot.nodup_expectedOn hchecked) (undisturbedPlan_fits d _)
  refine ⟨ms₂, hw₂, hsetup₂, fun i m₁ m₂ hm₁ hm₂ => ?_⟩
  obtain ⟨hothers, hspecs⟩ := hends i m₁ m₂ hm₁ hm₂
  refine ⟨hothers, fun spec hspec hmembers h hh => ?_⟩
  obtain ⟨r, -, houtcome⟩ := hspecs spec hspec
  rw [hh] at houtcome
  generalize m₂.projects.get? spec.name = o at houtcome
  cases houtcome with
  | interrupted hnot => exact absurd trivial hnot
  | skipped hskipped =>
    rcases hskipped with hno | hno
    · rw [show m₁.profile.hasMembers = m₁.hasMembers from rfl, hmembers] at hno
      cases hno
    · cases hno
  | bad _ hbad => exact hbad.elim fun _ hr => hr.2.elim
  | held g h' hg hrepositories _ hheld =>
    obtain rfl := Option.some.inj hg
    refine ⟨h', rfl, hrepositories, fun b => (hheld.mem_iff b).trans ?_⟩
    rw [kept]
    cases m₁.failing.contains b.name <;> rfl

/-- **An undisturbed run brings every backend to rest** — the projects and members of every backend
become the expected ones, a deletion that repositories are in the way of and a member that the
backend rejects holding up nothing else; and no later run, however it is carried out, changes a
backend again. A cancellation that was signalled stays signalled (`Signals`). -/
theorem reconcile_converges {d : CredentialDirectory} (hw : w.backends = ms.map .memory)
    (hchecked : (Snapshot.mk registries projects).check = .ok ())
    (hsettings : settings.check = .ok ()) (hdry : settings.dry = false)
    (hcapable : ∀ m ∈ ms, m.creates = true ∧ m.hasMembers = true)
    (hrepositories : ∀ m ∈ ms, ∀ n h, m.projects.get? n = some h → h.repositories.Nodup)
    (hundisturbed : w.Undisturbed (some d) settings cancel projects) :
    ∃ ms' : List Memory,
      (w.reconcile (some d) settings cancel projects).2.backends = ms'.map .memory
      ∧ List.Forall₂ (Converged projects) ms ms'
      ∧ ∀ directory' settings' cancel',
        ((w.reconcile (some d) settings cancel projects).2.reconcile directory' settings' cancel'
          projects).2.backends = ms'.map .memory := by
  obtain ⟨ms₁, hw₁, hsetup₁, -, hprojects⟩ :=
    projectPhase_undisturbed hw hchecked hsettings hdry hrepositories hundisturbed
  obtain ⟨ms₂, hw₂, hsetup₂, hmembers⟩ :=
    memberPhase_undisturbed hw hw₁ hsetup₁ hchecked hsettings hdry hundisturbed
  have hconverged : List.Forall₂ (Converged projects) ms ms₂ := by
    refine Memory.forall₂_of_setups hsetup₁ hsetup₂ ?_
    intro i m m₁ m₂ hm hm₁ hm₂ hset₁ hset₂
    exact converged_of_phases (hcapable m (List.mem_of_getElem? hm)) hset₁ hset₂
      (hprojects i m m₁ hm hm₁) (hmembers i m₁ m₂ hm₁ hm₂).1 (hmembers i m₁ m₂ hm₁ hm₂).2
  refine ⟨ms₂, hw₂, hconverged, fun directory' settings' cancel' => ?_⟩
  have hrest : ∀ m' ∈ ms₂, m'.AtRest projects := fun m' hm' => by
    obtain ⟨i, hi, rfl⟩ := List.getElem_of_mem hm'
    have hi₀ : i < ms.length := hconverged.length_eq ▸ hi
    exact ((List.forall₂_iff_get.1 hconverged).2 i hi₀ hi).atRest
  exact (reconcile_still hw₂ hrest directory' settings' cancel').trans hw₂

/-- A backend with a project that owns a repository and with a member that it rejects. -/
def leftover : Memory :=
  { (Memory.ofRegistry ⟨"edge", "https://edge.example.com", ⟨"admin", "secret"⟩, .harbor, .leaf,
      ⟨true, none⟩, .empty⟩).addProject "old" ["app"] with failing := ["bob"] }

/-- The project that is to be there instead. -/
def webProject : ProjectSpec :=
  ⟨"web", .everywhere, [], [⟨"ci", .robot, "PullOnly"⟩, ⟨"bob", .user, "Guest"⟩], none⟩

theorem reconcile_converges_leftover :
    ∃ ms' : List Memory,
      ((ofMemories [leftover]).reconcile (some ⟨"creds", .yaml⟩) .standard none
        [webProject]).2.backends = ms'.map .memory
      ∧ List.Forall₂ (Converged [webProject]) [leftover] ms'
      ∧ ∀ directory' settings' cancel',
        (((ofMemories [leftover]).reconcile (some ⟨"creds", .yaml⟩) .standard none
          [webProject]).2.reconcile directory' settings' cancel' [webProject]).2.backends
            = ms'.map .memory := by
  have hchecked : (Snapshot.mk [] [webProject]).check = .ok () := by decide
  refine reconcile_converges
    (show (ofMemories [leftover]).backends = [leftover].map .memory from rfl) hchecked rfl rfl
    (fun m hm => ?_) (fun m hm n h hh => ?_)
    (undisturbed_of_instant (fun b hb => ?_) (by decide))
  · obtain rfl := List.mem_singleton.1 hm
    exact ⟨rfl, rfl⟩
  · obtain rfl := List.mem_singleton.1 hm
    have hold : leftover.projects = Keyed.empty.insert "old" ⟨["old/app"], []⟩ := rfl
    rw [hold, Keyed.get?_insert] at hh
    split at hh
    · exact Option.some.inj hh ▸ List.nodup_singleton _
    · cases hh
  · obtain rfl := List.mem_singleton.1 hb
    rfl

end World

end RegistryFleet
