import RegistryFleet.Proofs.Credential.Robots
import Mathlib.Data.List.Induction

/-!
# Proofs/Credential/Lockstep — credentials and robots over a sequence of runs

Undisturbed runs bind and unbind robots together with their credentials. Only a run that drops a
whole project forgets the credentials of its robots.

* `World.Stocked` — the invariant of a sequence of runs.
* `World.Stocked.perform` — one run: what is bound and what is stored afterwards.
* `World.credentials_lockstep` — after any sequence, the credentials stored are those of the robots
  bound, and those that a dropped project has left behind.
-/

namespace RegistryFleet

/-- **What a run is started with.** -/
structure Run where
  settings : RunSettings
  /-- When the run is cancelled for good, if it is. -/
  cancel : Option Nat
  projects : List ProjectSpec

/-- The run expects the project of a key on its registry. -/
def Run.Expects (r : Run) (key : CredentialKey) : Prop :=
  key.project ∈ (expectedOn key.registry r.projects).map ProjectSpec.name

/-- **A run that goes through**: it is checked, changes what it finds and comes to its end, members
are told apart by name, and the credentials of its robots can be stored. -/
structure Run.Orderly (r : Run) (d : CredentialDirectory) (registries : List RegistrySpec)
    (w : World) : Prop where
  checked : (Snapshot.mk registries r.projects).check = .ok ()
  settings : r.settings.check = .ok ()
  performed : r.settings.dry = false
  undisturbed : w.Undisturbed (some d) r.settings r.cancel r.projects
  distinct : ∀ spec ∈ r.projects, (spec.members.map Member.name).Nodup
  takes : ∀ registry ∈ registries.map RegistrySpec.name, ∀ spec ∈ expectedOn registry r.projects,
    ∀ b ∈ spec.members, b.type = .robot → d.Takes ⟨registry, spec.name, b.name⟩

/-- A robot of that name is bound to a project. -/
def Memory.Binds (m : Memory) (project name : String) : Prop :=
  ∃ h, m.projects.get? project = some h ∧ BindsRobot h.members name

/-- **A project that runs have made**: without repositories, its members told apart by name, the
credentials of its robots such that they can be stored. -/
structure Holding.Tended (d : CredentialDirectory) (registry project : String) (h : Holding) :
    Prop where
  bare : h.repositories = []
  distinct : (h.members.map Member.name).Nodup
  takes : ∀ b ∈ h.members, b.type = .robot → d.Takes ⟨registry, project, b.name⟩

/-- Changes leave a project tended. -/
theorem Holding.Tended.changed {d : CredentialDirectory} {registry : String} {m : Memory}
    {spec : ProjectSpec} {h h' : Holding} {shelf shelf' : String → Prop}
    (ht : h.Tended d registry spec.name) (hrepositories : h'.repositories = h.repositories)
    (hheld : RobotsStored m spec h.members shelf h'.members shelf' [])
    (hdistinct : (spec.members.map Member.name).Nodup)
    (htakes : ∀ b ∈ spec.members, b.type = .robot → d.Takes ⟨registry, spec.name, b.name⟩) :
    h'.Tended d registry spec.name where
  bare := hrepositories.trans ht.bare
  distinct := hheld.distinct ht.distinct hdistinct
  takes b hb hrobot := by
    rw [hheld.way.mem_iff] at hb
    split at hb
    · exact htakes b hb hrobot
    · exact ht.takes b hb hrobot

/-- Without repositories in the way, just the expected projects are there after the first phase. -/
theorem Memory.projectAfter_of_bare {p : Profile} {expected : List String} {name : String}
    {o : Option Holding} (hbare : ∀ g, o = some g → g.repositories = []) {h : Holding} :
    projectAfter p expected name o = some h
      ↔ name ∈ expected ∧ (o = some h ∨ o = none ∧ p.creates = true ∧ h = .empty) := by
  cases o with
  | none =>
    rw [projectAfter]
    split
    · next hn => simp [hn, eq_comm]
    · next hn =>
      refine iff_of_false (by simp) ?_
      rintro ⟨hexpected, he | ⟨-, hcreates, -⟩⟩
      · cases he
      · exact hn ⟨hexpected, hcreates⟩
  | some g =>
    have hfree : ¬ Refused p g := fun hr => hr.1 (hbare g rfl)
    rw [projectAfter]
    split
    · next hn => simp [hn.resolve_right hfree]
    · next hn => simp [not_or.1 hn]

namespace World

variable {d : CredentialDirectory} {here names : List String} {registries : List RegistrySpec}
  {w : World} {ms ms₁ : List Memory} {r : Run} {key : CredentialKey}

/-- **A robot of that key is bound.** -/
def Bound (w : World) (key : CredentialKey) : Prop :=
  ∃ i m, w.memory? i = some m ∧ m.registry.name = key.registry ∧ m.Binds key.project key.member

/-- A robot is bound on the backend of its registry. -/
theorem bound_iff (hw : w.backends = ms.map .memory)
    (hnodup : (ms.map fun m => m.registry.name).Nodup) {i : Nat} {m : Memory}
    (hm : ms[i]? = some m) (project name : String) :
    w.Bound ⟨m.registry.name, project, name⟩ ↔ m.Binds project name := by
  constructor
  · rintro ⟨j, m', hm', hregistry, hbinds⟩
    rw [memory?_of_backends hw] at hm'
    have hname : (ms.map fun m => m.registry.name)[j]? = (ms.map fun m => m.registry.name)[i]? := by
      rw [List.getElem?_map, List.getElem?_map, hm, hm']
      exact congrArg some hregistry
    have hlt : j < (ms.map fun m => m.registry.name).length := by
      simpa using (List.getElem?_eq_some_iff.1 hm').1
    obtain rfl : j = i := (List.getElem?_inj hlt hnodup).1 hname
    exact Option.some.inj (hm.symm.trans hm') ▸ hbinds
  · exact fun hbinds => ⟨i, m, (memory?_of_backends hw i).trans hm, rfl, hbinds⟩

/-! ## The invariant -/

/-- **The invariant of a sequence of runs** — backends of these names, whose projects are tended,
and a directory in which the credential of every robot bound is stored. -/
structure Stocked (d : CredentialDirectory) (here names : List String) (ms : List Memory)
    (files : Files) : Prop where
  names : (ms.map fun m => m.registry.name) = names
  tended : ∀ m ∈ ms, ∀ n h, m.projects.get? n = some h → h.Tended d m.registry.name n
  ready : d.Ready here files
  stored : ∀ m ∈ ms, ∀ n b, m.Binds n b → d.Stores files ⟨m.registry.name, n, b⟩

theorem names_of_setup {ms ms' : List Memory} (h : ms'.map Memory.setup = ms.map Memory.setup) :
    (ms'.map fun m => m.registry.name) = ms.map fun m => m.registry.name := by
  have := congrArg (List.map fun m : Memory => m.registry.name) h
  rwa [List.map_map, List.map_map] at this

namespace Stocked

variable {files : Files} {i : Nat} {m : Memory}

theorem getElem?_names (h : Stocked d here names ms files) (hm : ms[i]? = some m) :
    names[i]? = some m.registry.name := by
  rw [← h.names, List.getElem?_map, hm]
  rfl

theorem keyAt_eq (h : Stocked d here names ms files) (hm : ms[i]? = some m) (n b : String) :
    keyAt names (i, n) b = ⟨m.registry.name, n, b⟩ := by
  simp only [keyAt, h.getElem?_names hm, Option.getD_some]

theorem place_lt (h : Stocked d here names ms files) {projects : List ProjectSpec}
    {q : Nat × String} (hq : q ∈ memberPlaces (ms.map Memory.profile) projects) :
    q.1 < names.length := by
  obtain ⟨m, hm, -⟩ := mem_memberPlaces.1 hq
  exact (List.getElem?_eq_some_iff.1 (h.getElem?_names hm)).1

/-- Whoever is bound to a project is on its shelf. -/
theorem shelf_of_binds (h : Stocked d here names ms files) (hm : ms[i]? = some m)
    {places : List (Nat × String)} {base : Files} {n b : String} (hbinds : m.Binds n b) :
    (shelves d here names places base).shelf (i, n) files b := by
  have hmem := List.mem_of_getElem? hm
  change (keyAt names (i, n) b).Proper ∧ d.Stores files (keyAt names (i, n) b)
  rw [h.keyAt_eq hm]
  refine ⟨?_, h.stored m hmem n b hbinds⟩
  obtain ⟨g, hg, c, hc, hrobot, rfl⟩ := hbinds
  exact ((h.tended m hmem n g hg).takes c hc hrobot).proper

end Stocked

/-! ## One run -/

/-- **What the first phase makes of a backend** without repositories: the expected projects are as
they were, or new and empty, and no others are there. -/
structure Cleared (r : Run) (m m₁ : Memory) : Prop where
  registry : m₁.registry = m.registry
  there : ∀ n h, m₁.projects.get? n = some h
    ↔ n ∈ (expectedOn m.registry.name r.projects).map ProjectSpec.name
      ∧ (m.projects.get? n = some h ∨ m.projects.get? n = none ∧ m.creates = true ∧ h = .empty)

namespace Cleared

variable {m m₁ : Memory} {n : String}

theorem gone (h : Cleared r m m₁)
    (hn : n ∉ (expectedOn m.registry.name r.projects).map ProjectSpec.name) :
    m₁.projects.get? n = none :=
  Option.eq_none_iff_forall_ne_some.2 fun g hg => hn ((h.there n g).1 hg).1

theorem binds (h : Cleared r m m₁) {b : String} (hbinds : m₁.Binds n b) : m.Binds n b := by
  obtain ⟨g, hg, hrobot⟩ := hbinds
  rcases ((h.there n g).1 hg).2 with hbefore | ⟨-, -, rfl⟩
  · exact ⟨g, hbefore, hrobot⟩
  · exact absurd hrobot (not_bindsRobot_nil b)

theorem binds_iff (h : Cleared r m m₁)
    (hn : n ∈ (expectedOn m.registry.name r.projects).map ProjectSpec.name) (b : String) :
    m₁.Binds n b ↔ m.Binds n b :=
  ⟨h.binds, fun ⟨g, hg, hrobot⟩ => ⟨g, (h.there n g).2 ⟨hn, .inl hg⟩, hrobot⟩⟩

theorem tended (h : Cleared r m m₁)
    (htended : ∀ g, m.projects.get? n = some g → g.Tended d m.registry.name n) {g : Holding}
    (hg : m₁.projects.get? n = some g) : g.Tended d m.registry.name n := by
  rcases ((h.there n g).1 hg).2 with hbefore | ⟨-, -, rfl⟩
  · exact htended g hbefore
  · exact ⟨rfl, List.nodup_nil, fun _ hb => absurd hb List.not_mem_nil⟩

end Cleared

/-- **The first phase** drops the projects that are not expected, and binds and unbinds nobody. -/
theorem projectPhase_robots (hw : w.backends = ms.map .memory)
    (hstocked : Stocked d here names ms w.files) (hr : r.Orderly d registries w) :
    ∃ ms₁ : List Memory,
      (w.projectPhase (some d) r.settings r.cancel r.projects).world.backends = ms₁.map .memory
      ∧ ms₁.map Memory.setup = ms.map Memory.setup
      ∧ (w.projectPhase (some d) r.settings r.cancel r.projects).world.files = w.files
      ∧ Stocked d here names ms₁ w.files
      ∧ ∀ (i : Nat) (m m₁ : Memory), ms[i]? = some m → ms₁[i]? = some m₁ → Cleared r m m₁ := by
  obtain ⟨ms₁, hw₁, hsetup, hfiles, hafter⟩ := projectPhase_undisturbed hw hr.checked hr.settings
    hr.performed (fun m hm n h hh => by
      rw [(hstocked.tended m hm n h hh).bare]
      exact List.nodup_nil) hr.undisturbed
  have hcleared : ∀ (i : Nat) (m m₁ : Memory), ms[i]? = some m → ms₁[i]? = some m₁ →
      Cleared r m m₁ := by
    refine fun i m m₁ hm hm₁ => ⟨Memory.registry_of_setup (Memory.setup_of_map hsetup hm hm₁),
      fun n h => ?_⟩
    rw [hafter i m m₁ hm hm₁ n]
    exact Memory.projectAfter_of_bare fun g hg =>
      (hstocked.tended m (List.mem_of_getElem? hm) n g hg).bare
  have hbefore : ∀ m₁ ∈ ms₁, ∃ m ∈ ms, Cleared r m m₁ := by
    intro m₁ hmem
    obtain ⟨i, hm₁⟩ := List.getElem?_of_mem hmem
    obtain ⟨m, hm, -⟩ := Memory.getElem?_of_setups hsetup hm₁
    exact ⟨m, List.mem_of_getElem? hm, hcleared i m m₁ hm hm₁⟩
  refine ⟨ms₁, hw₁, hsetup, hfiles, ⟨(names_of_setup hsetup).trans hstocked.names, ?_,
    hstocked.ready, ?_⟩, hcleared⟩
  · intro m₁ hmem n h hh
    obtain ⟨m, hm, hclear⟩ := hbefore m₁ hmem
    rw [hclear.registry]
    exact hclear.tended (hstocked.tended m hm n) hh
  · intro m₁ hmem n b hbinds
    obtain ⟨m, hm, hclear⟩ := hbefore m₁ hmem
    rw [hclear.registry]
    exact hstocked.stored m hm n b (hclear.binds hbinds)

/-- **What the second phase aims at**, from these files on. -/
def robotsPlan (sh : Shelves (String → Prop)) (files : Files) : MemberPlan (String → Prop) where
  calm := True
  Bad _ := False
  Passed m n := m.failing.contains n = true
  Comes := ShelfChange
  Held i m spec h := RobotsStored m spec h.members (sh.shelf (i, spec.name) files)

/-- Expected robots have keys that can be stored. -/
theorem Stocked.takes_of_expected {files : Files}
    (hstocked : Stocked d here (registries.map RegistrySpec.name) ms files)
    (hr : r.Orderly d registries w) {m : Memory} (hm : m ∈ ms) {spec : ProjectSpec}
    (hspec : spec ∈ expectedOn m.registry.name r.projects) :
    ∀ b ∈ spec.members, b.type = .robot → d.Takes ⟨m.registry.name, spec.name, b.name⟩ :=
  hr.takes m.registry.name
    (hstocked.names ▸ List.mem_map_of_mem (f := fun m : Memory => m.registry.name) hm) spec hspec

theorem robotsPlan_fits {files : Files}
    (hstocked : Stocked d here (registries.map RegistrySpec.name) ms files)
    (hr : r.Orderly d registries w) :
    (robotsPlan (shelves d here (registries.map RegistrySpec.name)
      (memberPlaces (ms.map Memory.profile) r.projects) files) files).Fits
      (shelves d here (registries.map RegistrySpec.name)
        (memberPlaces (ms.map Memory.profile) r.projects) files) (some d) r.projects ms files where
  comes i m spec h hm hspec hh c hc e hasks := by
    have hmem := List.mem_of_getElem? hm
    refine settles_memberChange (Snapshot.nodup_registries hr.checked) (fun _ => hstocked.place_lt)
      (mem_memberPlaces.2 ⟨m, hm, List.mem_map_of_mem hspec⟩) (hstocked.getElem?_names hm)
      (fun hrobot => ?_) hasks
    rw [hstocked.keyAt_eq hm]
    rcases mem_diff.1 hc with ⟨b, rfl, hb, -⟩ | ⟨b, rfl, hb, -⟩
    · exact (hstocked.tended m hmem _ _ hh).takes b hb hrobot
    · exact hstocked.takes_of_expected hr hmem hspec b hb hrobot
  aim i m spec h hm _ _ hh :=
    ⟨memberAim_robots m spec _ (hstocked.tended m (List.mem_of_getElem? hm) _ _ hh).distinct,
      .start m spec fun _ hn => hstocked.shelf_of_binds hm ⟨h, hh, hn⟩⟩

/-- **The second phase** — of the keys of an expected project, those are stored afterwards of robots
bound, and those stored before that no robot was bound under. -/
theorem memberPhase_robots {files : Files} (hw : w.backends = ms.map .memory)
    (hw₁ : (w.projectPhase (some d) r.settings r.cancel r.projects).world.backends
      = ms₁.map .memory)
    (hsetup : ms₁.map Memory.setup = ms.map Memory.setup)
    (hfiles : (w.projectPhase (some d) r.settings r.cancel r.projects).world.files = files)
    (hstocked : Stocked d here (registries.map RegistrySpec.name) ms₁ files)
    (hr : r.Orderly d registries w) :
    ∃ ms₂ : List Memory,
      (w.memberPhase (some d) r.settings r.cancel r.projects).world.backends = ms₂.map .memory
      ∧ ms₂.map Memory.setup = ms₁.map Memory.setup
      ∧ (shelves d here (registries.map RegistrySpec.name)
          (memberPlaces (ms₁.map Memory.profile) r.projects) files).tidy
          (w.memberPhase (some d) r.settings r.cancel r.projects).world.files
      ∧ ∀ (i : Nat) (m₁ m₂ : Memory), ms₁[i]? = some m₁ → ms₂[i]? = some m₂ →
        (∀ n, n ∉ (expectedOn m₁.registry.name r.projects).map ProjectSpec.name →
          m₂.projects.get? n = m₁.projects.get? n)
        ∧ ∀ spec ∈ expectedOn m₁.registry.name r.projects,
          (∀ h, m₂.projects.get? spec.name = some h → h.Tended d m₁.registry.name spec.name)
          ∧ ∀ b, (CredentialKey.mk m₁.registry.name spec.name b).Proper →
            (d.Stores (w.memberPhase (some d) r.settings r.cancel r.projects).world.files
                ⟨m₁.registry.name, spec.name, b⟩
              ↔ m₂.Binds spec.name b
                ∨ d.Stores files ⟨m₁.registry.name, spec.name, b⟩
                  ∧ ¬ m₁.Binds spec.name b) := by
  subst hfiles
  obtain ⟨ms₂, vals, hw₂, hsetup₂, htidy, -, hends⟩ := memberPhase_secure (robotsPlan _ _)
    (shelves d here (registries.map RegistrySpec.name)
      (memberPlaces (ms₁.map Memory.profile) r.projects) _) hw hw₁ hsetup
    ⟨hstocked.ready, fun _ _ _ => Iff.rfl⟩ (RunSettings.concurrent_pos hr.settings) hr.performed
    (fun _ => hr.undisturbed) (Snapshot.nodup_expectedOn hr.checked) (robotsPlan_fits hstocked hr)
  refine ⟨ms₂, hw₂, hsetup₂, htidy, fun i m₁ m₂ hm₁ hm₂ => ?_⟩
  obtain ⟨hothers, hends⟩ := hends i m₁ m₂ hm₁ hm₂
  refine ⟨hothers, fun spec hspec => ?_⟩
  have hmem := List.mem_of_getElem? hm₁
  obtain ⟨unit, -, houtcome⟩ := hends spec hspec
  obtain ⟨hshelf, hleft⟩ := houtcome.robots fun h n hh hbinds =>
    hstocked.shelf_of_binds hm₁ ⟨h, hh, hbinds⟩
  refine ⟨fun h' hh' => ?_, fun b hproper => ?_⟩
  · rcases hleft h' hh' with hh | ⟨h, hh, hrepositories, hheld⟩
    · exact hstocked.tended m₁ hmem _ _ hh
    · exact (hstocked.tended m₁ hmem _ _ hh).changed hrepositories hheld
        (hr.distinct spec (List.mem_filter.1 hspec).1) (hstocked.takes_of_expected hr hmem hspec)
  · have := hshelf b
    simp only [shelves, hstocked.keyAt_eq hm₁, hproper, true_and] at this
    exact this

/-- The world after a run. -/
def perform (d : CredentialDirectory) (w : World) (r : Run) : World :=
  (w.reconcile (some d) r.settings r.cancel r.projects).2

/-- **What a run makes of a backend** and of the credentials of its robots. -/
structure Performed (d : CredentialDirectory) (r : Run) (files files' : Files) (m m' : Memory) :
    Prop where
  registry : m'.registry = m.registry
  gone : ∀ n, n ∉ (expectedOn m.registry.name r.projects).map ProjectSpec.name →
    m'.projects.get? n = none
  tended : ∀ n h, m'.projects.get? n = some h → h.Tended d m.registry.name n
  stores : ∀ n ∈ (expectedOn m.registry.name r.projects).map ProjectSpec.name, ∀ b,
    (CredentialKey.mk m.registry.name n b).Proper → (d.Stores files' ⟨m.registry.name, n, b⟩
      ↔ m'.Binds n b ∨ d.Stores files ⟨m.registry.name, n, b⟩ ∧ ¬ m.Binds n b)

/-- A robot bound afterwards is bound to an expected project, and its key is a proper one. -/
theorem Performed.of_binds {files files' : Files} {m m' : Memory}
    (h : Performed d r files files' m m') {n b : String} (hbinds : m'.Binds n b) :
    n ∈ (expectedOn m.registry.name r.projects).map ProjectSpec.name
      ∧ (CredentialKey.mk m.registry.name n b).Proper := by
  obtain ⟨g, hg, c, hc, hrobot, rfl⟩ := hbinds
  refine ⟨?_, ((h.tended n g hg).takes c hc hrobot).proper⟩
  by_contra hn
  rw [h.gone n hn] at hg
  cases hg

/-- **What a run makes of the backends**; the keys of no project of the run it leaves alone. -/
theorem performed_of_orderly (hw : w.backends = ms.map .memory)
    (hstocked : Stocked d here (registries.map RegistrySpec.name) ms w.files)
    (hr : r.Orderly d registries w) :
    ∃ ms' : List Memory, (w.perform d r).backends = ms'.map .memory
      ∧ ms'.map Memory.setup = ms.map Memory.setup
      ∧ (∀ (i : Nat) (m m' : Memory), ms[i]? = some m → ms'[i]? = some m' →
          Performed d r w.files (w.perform d r).files m m')
      ∧ d.Ready here (w.perform d r).files
      ∧ ∀ key : CredentialKey, key.Proper → (∀ m ∈ ms, m.registry.name = key.registry →
          ¬ r.Expects key) → (d.Stores (w.perform d r).files key ↔ d.Stores w.files key) := by
  obtain ⟨ms₁, hw₁, hsetup₁, hfiles, hstocked₁, hfirst⟩ := projectPhase_robots hw hstocked hr
  obtain ⟨ms₂, hw₂, hsetup₂, htidy, hsecond⟩ :=
    memberPhase_robots hw hw₁ hsetup₁ hfiles hstocked₁ hr
  refine ⟨ms₂, hw₂, hsetup₂.trans hsetup₁, fun i m m₂ hm hm₂ => ?_, htidy.1,
    fun key hproper hnone => htidy.2 key hproper fun place hplace member hkey => ?_⟩
  · obtain ⟨m₁, hm₁, hset₂⟩ := Memory.getElem?_of_setups hsetup₂ hm₂
    have hclear := hfirst i m m₁ hm hm₁
    obtain ⟨hothers, hspecs⟩ := hsecond i m₁ m₂ hm₁ hm₂
    rw [hclear.registry] at hothers hspecs
    have hgone : ∀ n, n ∉ (expectedOn m.registry.name r.projects).map ProjectSpec.name →
        m₂.projects.get? n = none := fun n hn => (hothers n hn).trans (hclear.gone hn)
    refine ⟨(Memory.registry_of_setup hset₂).trans hclear.registry, hgone, fun n h hh => ?_,
      fun n hn b hproper => ?_⟩
    · by_cases hn : n ∈ (expectedOn m.registry.name r.projects).map ProjectSpec.name
      · obtain ⟨spec, hspec, rfl⟩ := List.mem_map.1 hn
        exact (hspecs spec hspec).1 h hh
      · rw [hgone n hn] at hh
        cases hh
    · rw [← hclear.binds_iff hn b]
      obtain ⟨spec, hspec, rfl⟩ := List.mem_map.1 hn
      exact (hspecs spec hspec).2 b hproper
  · obtain ⟨m₁, hm₁, hn⟩ := mem_memberPlaces.1 hplace
    obtain ⟨m, hm, hset⟩ := Memory.getElem?_of_setups hsetup₁ hm₁
    rw [hstocked₁.keyAt_eq hm₁] at hkey
    subst hkey
    exact hnone m (List.mem_of_getElem? hm)
      (congrArg Registry.name (Memory.registry_of_setup hset)).symm hn

/-- **One run keeps the invariant.** -/
theorem stocked_of_performed {ms' : List Memory} {files files' : Files}
    (hsetup : ms'.map Memory.setup = ms.map Memory.setup) (hstocked : Stocked d here names ms files)
    (hperformed : ∀ (i : Nat) (m m' : Memory), ms[i]? = some m → ms'[i]? = some m' →
      Performed d r files files' m m')
    (hready : d.Ready here files') : Stocked d here names ms' files' := by
  have hbefore : ∀ m' ∈ ms', ∃ m, Performed d r files files' m m' := by
    intro m' hmem
    obtain ⟨i, hm'⟩ := List.getElem?_of_mem hmem
    obtain ⟨m, hm, -⟩ := Memory.getElem?_of_setups hsetup hm'
    exact ⟨m, hperformed i m m' hm hm'⟩
  refine ⟨(names_of_setup hsetup).trans hstocked.names, fun m' hmem n h hh => ?_, hready,
    fun m' hmem n b hbinds => ?_⟩
  · obtain ⟨m, hmade⟩ := hbefore m' hmem
    rw [hmade.registry]
    exact hmade.tended n h hh
  · obtain ⟨m, hmade⟩ := hbefore m' hmem
    obtain ⟨hexpected, hproper⟩ := hmade.of_binds hbinds
    rw [hmade.registry]
    exact (hmade.stores n hexpected b hproper).2 (.inl hbinds)

/-- **One run**, from an invariant that it keeps: stored afterwards are the credentials of the
robots bound, and those stored before whose robots the run did not come to. -/
theorem stocked_perform (hw : w.backends = ms.map .memory)
    (hstocked : Stocked d here (registries.map RegistrySpec.name) ms w.files)
    (hr : r.Orderly d registries w) :
    ∃ ms' : List Memory, (w.perform d r).backends = ms'.map .memory
      ∧ Stocked d here (registries.map RegistrySpec.name) ms' (w.perform d r).files
      ∧ ∀ key : CredentialKey, key.Proper → (d.Stores (w.perform d r).files key
          ↔ (w.perform d r).Bound key
            ∨ d.Stores w.files key ∧ ¬ (w.Bound key ∧ r.Expects key)) := by
  obtain ⟨ms', hw', hsetup, hperformed, hready, hothers⟩ := performed_of_orderly hw hstocked hr
  have hstocked' := stocked_of_performed hsetup hstocked hperformed hready
  have hnodup := Snapshot.nodup_registries hr.checked
  refine ⟨ms', hw', hstocked', fun key hproper => ?_⟩
  by_cases hplace : ∃ m ∈ ms, m.registry.name = key.registry ∧ r.Expects key
  · obtain ⟨m, hmem, hregistry, hexpects⟩ := hplace
    obtain ⟨registry, n, b⟩ := key
    obtain rfl : m.registry.name = registry := hregistry
    obtain ⟨i, hm⟩ := List.getElem?_of_mem hmem
    obtain ⟨m', hm', -⟩ := Memory.getElem?_of_setups hsetup.symm hm
    have hmade := hperformed i m m' hm hm'
    have hbound := bound_iff hw (hstocked.names ▸ hnodup) hm n b
    have hbound' := bound_iff hw' (hstocked'.names ▸ hnodup) hm' n b
    rw [hmade.registry] at hbound'
    rw [hbound, hbound', hmade.stores n hexpects b hproper]
    simp only [hexpects, and_true]
  · have hunexpected : ∀ m ∈ ms, m.registry.name = key.registry → ¬ r.Expects key :=
      fun m hm hname hexpects => hplace ⟨m, hm, hname, hexpects⟩
    have hunbound : ¬ (w.perform d r).Bound key := by
      rintro ⟨i, m', hm', hregistry, hbinds⟩
      rw [memory?_of_backends hw'] at hm'
      obtain ⟨m, hm, -⟩ := Memory.getElem?_of_setups hsetup hm'
      have hmade := hperformed i m m' hm hm'
      have hexpected := (hmade.of_binds hbinds).1
      rw [hmade.registry] at hregistry
      rw [hregistry] at hexpected
      exact hunexpected m (List.mem_of_getElem? hm) hregistry hexpected
    have hfree : ¬ (w.Bound key ∧ r.Expects key) := by
      rintro ⟨⟨i, m, hm, hregistry, -⟩, hexpects⟩
      rw [memory?_of_backends hw] at hm
      exact hunexpected m (List.mem_of_getElem? hm) hregistry hexpects
    rw [hothers key hproper hunexpected]
    simp only [hunbound, hfree, false_or, not_false_iff, and_true]

/-! ## A sequence of runs -/

/-- The world after runs, one after the other. -/
def performAll (d : CredentialDirectory) (w : World) (runs : List Run) : World :=
  runs.foldl (perform d) w

theorem performAll_concat (d : CredentialDirectory) (w : World) (runs : List Run) (r : Run) :
    w.performAll d (runs ++ [r]) = (w.performAll d runs).perform d r := by
  rw [performAll, List.foldl_append]
  rfl

/-- **A robot was bound when a run dropped its project**, and none has been bound under its key
since. -/
def LeftBehind (d : CredentialDirectory) (w : World) (key : CredentialKey) (runs : List Run) :
    Prop :=
  ∃ front r back, runs = front ++ r :: back ∧ (w.performAll d front).Bound key ∧ ¬ r.Expects key
    ∧ ∀ more, more <+: back → ¬ (w.performAll d (front ++ r :: more)).Bound key

theorem LeftBehind.not_bound {runs : List Run} (h : LeftBehind d w key runs) :
    ¬ (w.performAll d runs).Bound key := by
  obtain ⟨front, r, back, rfl, -, -, hsince⟩ := h
  exact hsince back (List.prefix_refl back)

theorem not_leftBehind_nil : ¬ LeftBehind d w key [] := by
  rintro ⟨front, r, back, hruns, -⟩
  cases front <;> cases hruns

/-- What one more run leaves behind. -/
theorem leftBehind_concat {runs : List Run} : LeftBehind d w key (runs ++ [r])
    ↔ ((w.performAll d runs).Bound key ∧ ¬ r.Expects key ∨ LeftBehind d w key runs)
      ∧ ¬ (w.performAll d (runs ++ [r])).Bound key := by
  constructor
  · intro h
    refine ⟨?_, h.not_bound⟩
    obtain ⟨front, q, back, hruns, hbound, hexpects, hsince⟩ := h
    rcases List.eq_nil_or_concat' back with rfl | ⟨back, last, rfl⟩
    · obtain ⟨rfl, hlast⟩ := List.append_inj' hruns rfl
      obtain rfl := List.singleton_inj.1 hlast
      exact .inl ⟨hbound, hexpects⟩
    · have hcut : runs ++ [r] = (front ++ q :: back) ++ [last] := by
        rw [hruns, List.append_assoc, List.cons_append]
      obtain ⟨rfl, -⟩ := List.append_inj' hcut rfl
      exact .inr ⟨front, q, back, rfl, hbound, hexpects, fun more hmore =>
        hsince more (hmore.trans (List.prefix_append back [last]))⟩
  · rintro ⟨⟨hbound, hexpects⟩ | ⟨front, q, back, rfl, hbound, hexpects, hsince⟩, hnot⟩
    · refine ⟨runs, r, [], rfl, hbound, hexpects, fun more hmore => ?_⟩
      obtain rfl := List.prefix_nil.1 hmore
      exact hnot
    · refine ⟨front, q, back ++ [r], by simp, hbound, hexpects, fun more hmore => ?_⟩
      rcases List.prefix_concat_iff.1 hmore with rfl | hmore
      · simpa using hnot
      · exact hsince more hmore

/-- The invariant at the start. -/
theorem stocked_of_empty (hprojects : ∀ m ∈ ms, m.projects = .empty)
    (hregistries : registries.map RegistrySpec.name = ms.map fun m => m.registry.name)
    (hfolder : w.files.Folder d.path here)
    (hempty : ∀ name, w.files.at? (here ++ [name]) = none) :
    Stocked d here (registries.map RegistrySpec.name) ms w.files where
  names := hregistries.symm
  tended m hm n h hh := by
    rw [hprojects m hm] at hh
    cases hh
  ready := ⟨hfolder, fun name => by simp [hempty name]⟩
  stored m hm n b hbinds := by
    obtain ⟨h, hh, -⟩ := hbinds
    rw [hprojects m hm] at hh
    cases hh

/-- **The invariant holds after every sequence of runs**, and what is stored then is bound or left
behind. -/
theorem stocked_performAll (hw : w.backends = ms.map .memory)
    (hprojects : ∀ m ∈ ms, m.projects = .empty)
    (hregistries : registries.map RegistrySpec.name = ms.map fun m => m.registry.name)
    (hfolder : w.files.Folder d.path here)
    (hempty : ∀ name, w.files.at? (here ++ [name]) = none) (runs : List Run)
    (hruns : ∀ front r back, runs = front ++ r :: back →
      r.Orderly d registries (w.performAll d front)) :
    (∃ ms' : List Memory, (w.performAll d runs).backends = ms'.map .memory
      ∧ Stocked d here (registries.map RegistrySpec.name) ms' (w.performAll d runs).files)
    ∧ ∀ key : CredentialKey, key.Proper → (d.Stores (w.performAll d runs).files key
        ↔ (w.performAll d runs).Bound key ∨ LeftBehind d w key runs) := by
  induction runs using List.reverseRecOn with
  | nil =>
    refine ⟨⟨ms, hw, stocked_of_empty hprojects hregistries hfolder hempty⟩, fun key hproper => ?_⟩
    refine iff_of_false (CredentialDirectory.not_stores_of_empty hfolder hempty hproper) ?_
    rintro (⟨i, m, hm, -, h, hh, -⟩ | hleft)
    · change w.memory? i = some m at hm
      rw [memory?_of_backends hw] at hm
      rw [hprojects m (List.mem_of_getElem? hm)] at hh
      cases hh
    · exact not_leftBehind_nil hleft
  | append_singleton runs r ih =>
    obtain ⟨⟨ms', hw', hstocked⟩, hstores⟩ := ih fun front q back hq =>
      hruns front q (back ++ [r]) (by rw [hq, List.append_assoc, List.cons_append])
    obtain ⟨ms'', hw'', hstocked'', hstep⟩ := stocked_perform hw' hstocked (hruns runs r [] rfl)
    rw [← performAll_concat] at hw'' hstocked'' hstep
    refine ⟨⟨ms'', hw'', hstocked''⟩, fun key hproper => ?_⟩
    have hnot : LeftBehind d w key runs → ¬ (w.performAll d runs).Bound key := LeftBehind.not_bound
    rw [hstep key hproper, hstores key hproper, leftBehind_concat]
    tauto

/-- **Credentials stay in lockstep with robots, but for dropped projects** — after every sequence of
undisturbed runs, the credential of a key is stored just if a robot of that key is bound, or one was
bound when a run dropped its project and none has been bound since. That a cancellation stays
signalled (`Signals`) is part of what an undisturbed run is. -/
theorem credentials_lockstep (hw : w.backends = ms.map .memory)
    (hprojects : ∀ m ∈ ms, m.projects = .empty)
    (hregistries : registries.map RegistrySpec.name = ms.map fun m => m.registry.name)
    (hfolder : w.files.Folder d.path here)
    (hempty : ∀ name, w.files.at? (here ++ [name]) = none) (runs : List Run)
    (hruns : ∀ front r back, runs = front ++ r :: back →
      r.Orderly d registries (w.performAll d front)) (hkey : key.Proper) :
    d.Stores (w.performAll d runs).files key
      ↔ (w.performAll d runs).Bound key ∨ LeftBehind d w key runs :=
  (stocked_performAll hw hprojects hregistries hfolder hempty runs hruns).2 key hkey

/-- A registry of its own. -/
def soleRegistry : RegistrySpec :=
  ⟨"edge", .harbor, "https://edge.example.com", ⟨"admin", "secret"⟩, .leaf, .empty⟩

/-- Its backend, without projects. -/
def soleBackend : Memory := .ofRegistry (.ofSpec ⟨false⟩ soleRegistry)

/-- The backend beside an empty directory of credentials. -/
def soleWorld : World :=
  { ofMemories [soleBackend] with files := ⟨Keyed.empty.insert "creds" .directory⟩ }

/-- The directory. -/
def soleDirectory : CredentialDirectory := ⟨"creds", .yaml⟩

/-- A run that binds a robot. -/
def bindingRun : Run :=
  ⟨.standard, none, [⟨"web", .everywhere, [], [⟨"ci", .robot, "PullOnly"⟩], none⟩]⟩

/-- A run that drops every project. -/
def droppingRun : Run := ⟨.standard, none, []⟩

/-- The key of the robot. -/
def robotKey : CredentialKey := ⟨"edge", "web", "ci"⟩

theorem takes_robotKey : soleDirectory.Takes robotKey := by
  refine ⟨⟨?_, ?_, ?_⟩, ?_⟩
  all_goals decide +kernel

theorem folder_soleWorld : soleWorld.files.Folder soleDirectory.path ["creds"] :=
  ⟨by decide +kernel, by decide +kernel⟩

theorem empty_soleWorld (name : String) : soleWorld.files.at? (["creds"] ++ [name]) = none := by
  rw [Files.at?_append]
  have hne : Files.key (["creds"] ++ [name]) ≠ "creds" := fun h => by
    have hlist := congrArg String.toList h
    rw [Files.key_append_cons _ _ (by simp)] at hlist
    simp [Files.key, String.toList_append] at hlist
  exact (Keyed.get?_insert_of_ne hne).trans rfl

theorem empty_soleBackend : ∀ m ∈ [soleBackend], m.projects = .empty := fun m hm => by
  obtain rfl := List.mem_singleton.1 hm
  rfl

theorem orderly_bindingRun : bindingRun.Orderly soleDirectory [soleRegistry] soleWorld where
  checked := by decide +kernel
  settings := rfl
  performed := rfl
  undisturbed := undisturbed_of_instant (fun b hb => by
    obtain rfl := List.mem_singleton.1 hb
    rfl) (by decide)
  distinct := by decide +kernel
  takes registry hregistry spec hspec b hb hrobot := by
    obtain rfl := List.mem_singleton.1 hregistry
    obtain rfl := List.mem_singleton.1 (List.mem_filter.1 hspec).1
    obtain rfl := List.mem_singleton.1 hb
    exact takes_robotKey

theorem stocked_soleWorld :
    Stocked soleDirectory ["creds"] ([soleRegistry].map RegistrySpec.name) [soleBackend]
      soleWorld.files :=
  stocked_of_empty empty_soleBackend rfl folder_soleWorld empty_soleWorld

theorem orderly_droppingRun : droppingRun.Orderly soleDirectory [soleRegistry]
    (soleWorld.perform soleDirectory bindingRun) where
  checked := by decide +kernel
  settings := rfl
  performed := rfl
  undisturbed := by
    obtain ⟨ms', hw', hsetup, -⟩ := performed_of_orderly (w := soleWorld) (r := bindingRun) rfl
      stocked_soleWorld orderly_bindingRun
    refine undisturbed_of_instant (fun b hb => ?_) (by decide)
    rw [hw'] at hb
    obtain ⟨m', hm', rfl⟩ := List.mem_map.1 hb
    obtain ⟨i, hi⟩ := List.getElem?_of_mem hm'
    obtain ⟨m, hm, hset⟩ := Memory.getElem?_of_setups hsetup hi
    obtain rfl := List.mem_singleton.1 (List.mem_of_getElem? hm)
    exact congrArg Memory.latency hset
  distinct _ hspec := absurd hspec List.not_mem_nil
  takes _ _ _ hspec := absurd (List.mem_filter.1 hspec).1 List.not_mem_nil

theorem orderly_soleRuns (front : List Run) (r : Run) (back : List Run)
    (h : [bindingRun, droppingRun] = front ++ r :: back) :
    r.Orderly soleDirectory [soleRegistry] (soleWorld.performAll soleDirectory front) := by
  rcases front with _ | ⟨a, _ | ⟨b, rest⟩⟩
  · obtain ⟨rfl, -⟩ := List.cons.inj h
    exact orderly_bindingRun
  · obtain ⟨rfl, hrest⟩ := List.cons.inj h
    obtain ⟨rfl, -⟩ := List.cons.inj hrest
    exact orderly_droppingRun
  · obtain ⟨-, hrest⟩ := List.cons.inj h
    obtain ⟨-, hnone⟩ := List.cons.inj hrest
    cases rest <;> cases hnone

theorem credentials_lockstep_dropped :
    soleDirectory.Stores
        (soleWorld.performAll soleDirectory [bindingRun, droppingRun]).files robotKey
      ↔ (soleWorld.performAll soleDirectory [bindingRun, droppingRun]).Bound robotKey
        ∨ LeftBehind soleDirectory soleWorld robotKey [bindingRun, droppingRun] :=
  credentials_lockstep (show soleWorld.backends = [soleBackend].map .memory from rfl)
    empty_soleBackend rfl folder_soleWorld
    empty_soleWorld [bindingRun, droppingRun] orderly_soleRuns takes_robotKey.proper

/-- The world after a run that so many steps are enough for. -/
theorem perform_eq_for (d : CredentialDirectory) (w : World) (r : Run) (steps : Nat)
    (h₁ : (w.projectPhaseFor (some d) r.settings r.cancel r.projects steps).flights = [])
    (h₂ : (w.memberPhaseFor (some d) r.settings r.cancel r.projects steps).flights = []) :
    w.perform d r = (w.memberPhaseFor (some d) r.settings r.cancel r.projects steps).world := by
  rw [← (phases_eq_phasesFor w (some d) r.settings r.cancel r.projects steps h₁ h₂).2]
  rfl

/-- The world in which the robot is bound. -/
def boundWorld : World :=
  (soleWorld.memberPhaseFor (some soleDirectory) .standard none bindingRun.projects 40).world

/-- The world in which its project is dropped. -/
def droppedWorld : World :=
  (boundWorld.memberPhaseFor (some soleDirectory) .standard none droppingRun.projects 40).world

theorem performAll_soleWorld :
    soleWorld.performAll soleDirectory [bindingRun, droppingRun] = droppedWorld := by
  have hbound : soleWorld.perform soleDirectory bindingRun = boundWorld :=
    perform_eq_for _ _ _ 40 (by decide +kernel) (by decide +kernel)
  have hdropped : boundWorld.perform soleDirectory droppingRun = droppedWorld :=
    perform_eq_for _ _ _ 40 (by decide +kernel) (by decide +kernel)
  rw [← hdropped, ← hbound]
  rfl

/-- The credential is still stored. -/
theorem stores_droppedWorld : soleDirectory.Stores droppedWorld.files robotKey := by
  have hread : (droppedWorld.files.read (soleDirectory.pathOf robotKey)).toOption.isSome
      = true := by decide +kernel
  obtain ⟨content, hcontent⟩ := Option.isSome_iff_exists.1 hread
  refine ⟨content, ?_⟩
  cases hfile : droppedWorld.files.read (soleDirectory.pathOf robotKey) with
  | ok text => rw [hfile] at hcontent; exact congrArg Except.ok (Option.some.inj hcontent)
  | error e => rw [hfile] at hcontent; cases hcontent

/-- The robot is bound no more. -/
theorem not_bound_droppedWorld : ¬ droppedWorld.Bound robotKey := by
  rintro ⟨i, m, hm, -, h, hh, -⟩
  have hone : droppedWorld.backends.length = 1 := by decide +kernel
  have hi : i = 0 := by
    have := (List.getElem?_eq_some_iff.1 (backends_of_memory? hm)).1
    omega
  have hgone : droppedWorld.holding? (0, "web") = none := by decide +kernel
  rw [← hi, holding?, hm] at hgone
  exact absurd (hgone.symm.trans hh) (by simp)

/-- Credentials do not stay in lockstep with robots alone. -/
theorem credentials_outlive_project : ¬ ∀ (d : CredentialDirectory) (here : List String)
    (registries : List RegistrySpec) (w : World) (ms : List Memory) (runs : List Run)
    (key : CredentialKey),
    w.backends = ms.map .memory →
    (∀ m ∈ ms, m.projects = .empty) →
    registries.map RegistrySpec.name = (ms.map fun m => m.registry.name) →
    w.files.Folder d.path here →
    (∀ name, w.files.at? (here ++ [name]) = none) →
    (∀ front r back, runs = front ++ r :: back → r.Orderly d registries (w.performAll d front)) →
    key.Proper →
    (d.Stores (w.performAll d runs).files key ↔ (w.performAll d runs).Bound key) := by
  intro hlockstep
  have hsame := hlockstep soleDirectory ["creds"] [soleRegistry] soleWorld [soleBackend]
    [bindingRun, droppingRun] robotKey rfl
    empty_soleBackend rfl folder_soleWorld
    empty_soleWorld orderly_soleRuns takes_robotKey.proper
  rw [performAll_soleWorld] at hsame
  exact not_bound_droppedWorld (hsame.1 stores_droppedWorld)

end World

end RegistryFleet
