import RegistryFleet.Proofs.Fleet.Snapshot
import RegistryFleet.Proofs.Reconcile.MemberPhase
import RegistryFleet.Proofs.Reconcile.ProjectPhase
import RegistryFleet.Proofs.Reconcile.Report

/-!
# Proofs/Reconcile/Truthful — a fully successful report is true of every backend

Whatever was left undone is open in the report: a step that was cut off, refused or rejected, an
effect that had no place to be carried out, a unit that never began. So each phase shows its aim
with `Bad` for what is open, and where nothing is open the aim is met.

* `AsReported` — what a fully successful report promises of a backend.
* `World.reconcile_truthful` — it keeps the promise, whatever interrupted the run.
-/

namespace RegistryFleet

/-- **What a fully successful report promises of a backend.** -/
structure AsReported (projects : List ProjectSpec) (before after : Memory) : Prop where
  setup : after.setup = before.setup
  /-- The projects are the expected ones. -/
  present : before.creates = true → ∀ n, (∃ h, after.projects.get? n = some h)
    ↔ n ∈ (expectedOn before.registry.name projects).map ProjectSpec.name
  /-- The members of an expected project are the expected ones. -/
  bound : before.creates = true → before.hasMembers = true →
    ∀ spec ∈ expectedOn before.registry.name projects, ∃ h,
      after.projects.get? spec.name = some h ∧ ∀ b, b ∈ h.members ↔ b ∈ spec.members

theorem ActionResult.open_of_failureOutcome {s : Progress} {a : Action} {err : Error}
    (h : err.isCapabilityGap = false) : (failureOutcome s a err).1.Open := by
  rw [failureOutcome, h]
  exact .inl rfl

theorem ActionResult.open_of_failed (text reason : String) :
    (plain text (.failed reason)).Open := .inl rfl

theorem ActionResult.open_of_notStarted (text : String) : (plain text .notStarted).Open := .inr rfl

namespace World

/-- **The aim of the first phase**, where projects can be created: just the expected projects. -/
theorem projectAim_truthful (m : Memory) (expected : List String) :
    ProjectAim False m.profile m expected ActionResult.Open
      fun n o => m.creates = true → ((∃ h, o = some h) ↔ n ∈ expected) where
  interrupted _ := ActionResult.open_of_notStarted
  untouched _ hn _ := hn
  stepped a m' m'' r hstep hsame hrun := by
    have hstepped := Memory.run_projectStep (hstep.congr hsame) hrun
    cases r with
    | ok e => exact .inl fun _ => hstepped.ok e rfl
    | error e =>
      by_cases hcreates : m.creates = true
      · have hgap := (hstepped.error e rfl).2 hcreates
        exact .inr ⟨e, rfl, fun s => ActionResult.open_of_failureOutcome hgap⟩
      · exact .inl fun h => absurd h hcreates

/-- **What the second phase aims at** — the changes lead to the expected members, unless one of them
stays open. -/
def truthfulPlan : MemberPlan Unit where
  calm := False
  Bad := ActionResult.Open
  Passed _ _ := False
  Comes _ _ _ _ := True
  Held _ _ spec h members _ rest :=
    Change.OnTheWay (fun _ => true) h.members spec.members members rest

theorem memberAim_truthful (i : Nat) (m : Memory) (spec : ProjectSpec) (h : Holding) :
    MemberAim truthfulPlan.calm m.failing truthfulPlan.Bad (truthfulPlan.Passed m)
      truthfulPlan.Comes (truthfulPlan.Held i m spec h) where
  interrupted _ := ActionResult.open_of_notStarted
  passed _ _ _ _ _ hnever := hnever.elim
  failing _ _ := .inr ActionResult.open_of_failed
  absent _ _ _ _ h _ hb := absurd (h.mem_of_remove rfl) hb
  carriedOut _ _ _ _ out _ h _ _ := by
    cases out with
    | ok _ => exact .inl ⟨h.carry rfl, fun _ he => nomatch he⟩
    | error err => exact .inr fun _ _ => .inl rfl

variable {w : World} {ms : List Memory} {directory : Option CredentialDirectory}
  {settings : RunSettings} {cancel : Option Nat} {registries : List RegistrySpec}
  {projects : List ProjectSpec}

/-- **The first phase, if none of its units is open.** -/
theorem projectPhase_truthful (hw : w.backends = ms.map .memory)
    (hchecked : (Snapshot.mk registries projects).check = .ok ())
    (hsettings : settings.check = .ok ()) (hdry : settings.dry = false)
    (hclosed : ∀ r ∈ (w.projectPhase directory settings cancel projects).values,
      ¬ r.status.Open) :
    ∃ ms₁ : List Memory,
      (w.projectPhase directory settings cancel projects).world.backends = ms₁.map .memory
      ∧ ms₁.map Memory.setup = ms.map Memory.setup
      ∧ ∀ (i : Nat) (m m₁ : Memory), ms[i]? = some m → ms₁[i]? = some m₁ → ∀ n,
        m.creates = true → ((∃ h, m₁.projects.get? n = some h)
          ↔ n ∈ (expectedOn m.registry.name projects).map ProjectSpec.name) := by
  obtain ⟨ms₁, vals, hw₁, hsetup, -, hvals, hends⟩ := projectPhase_secure hw
    (RunSettings.concurrent_pos hsettings) hdry (fun hf => hf.elim)
    (fun m _ => projectAim_truthful m _) (Snapshot.nodup_expectedOn hchecked)
  refine ⟨ms₁, hw₁, hsetup, fun i m m₁ hm hm₁ => ?_⟩
  obtain ⟨r, hr, ⟨-, hcut⟩ | ⟨hstatus, a, ha, hopen⟩ | hheld⟩ := hends i m m₁ hm hm₁
  · exact absurd (.inr hcut) (hclosed r (hvals.mem_iff.2 hr))
  · have hunit := UnitResult.statusOf_of_open ha hopen
    exact absurd (hstatus ▸ hunit) (hclosed r (hvals.mem_iff.2 hr))
  · exact hheld

theorem truthfulPlan_fits (directory : Option CredentialDirectory) (files : Files) :
    truthfulPlan.Fits .blank directory projects ms files where
  comes _ _ _ _ _ _ _ _ _ _ _ _ _ := ⟨trivial, fun _ _ _ => rfl, trivial⟩
  aim i m spec h _ _ _ _ := ⟨memberAim_truthful i m spec h, .start _ _ _⟩

/-- **The second phase, if none of its units is open.** -/
theorem memberPhase_truthful {ms₁ : List Memory} (hw : w.backends = ms.map .memory)
    (hw₁ : (w.projectPhase directory settings cancel projects).world.backends = ms₁.map .memory)
    (hsetup : ms₁.map Memory.setup = ms.map Memory.setup)
    (hchecked : (Snapshot.mk registries projects).check = .ok ())
    (hsettings : settings.check = .ok ()) (hdry : settings.dry = false)
    (hclosed : ∀ r ∈ (w.memberPhase directory settings cancel projects).values,
      ¬ r.status.Open) :
    ∃ ms₂ : List Memory,
      (w.memberPhase directory settings cancel projects).world.backends = ms₂.map .memory
      ∧ ms₂.map Memory.setup = ms₁.map Memory.setup
      ∧ ∀ (i : Nat) (m₁ m₂ : Memory), ms₁[i]? = some m₁ → ms₂[i]? = some m₂ →
        (∀ n, n ∉ (expectedOn m₁.registry.name projects).map ProjectSpec.name →
          m₂.projects.get? n = m₁.projects.get? n)
        ∧ ∀ spec ∈ expectedOn m₁.registry.name projects, ∀ h,
          m₁.projects.get? spec.name = some h → ∃ h', m₂.projects.get? spec.name = some h'
            ∧ (m₁.hasMembers = true → ∀ b, b ∈ h'.members ↔ b ∈ spec.members) := by
  obtain ⟨ms₂, vals, hw₂, hsetup₂, -, hvals, hends⟩ := memberPhase_secure truthfulPlan .blank hw
    hw₁ hsetup trivial (RunSettings.concurrent_pos hsettings) hdry (fun hf => hf.elim)
    (Snapshot.nodup_expectedOn hchecked) (truthfulPlan_fits directory _)
  refine ⟨ms₂, hw₂, hsetup₂, fun i m₁ m₂ hm₁ hm₂ => ?_⟩
  obtain ⟨hothers, hspecs⟩ := hends i m₁ m₂ hm₁ hm₂
  refine ⟨hothers, fun spec hspec h hh => ?_⟩
  obtain ⟨r, hr, houtcome⟩ := hspecs spec hspec
  have hclosed := hclosed r (hvals.mem_iff.2 hr)
  rw [hh] at houtcome
  generalize m₂.projects.get? spec.name = o at houtcome
  cases houtcome with
  | interrupted _ reason hcut => exact absurd (.inr ⟨reason, hcut⟩) hclosed
  | skipped hskipped =>
    refine ⟨h, rfl, fun hmembers => ?_⟩
    rcases hskipped with hno | hno
    · rw [show m₁.profile.hasMembers = m₁.hasMembers from rfl, hmembers] at hno
      cases hno
    · cases hno
  | bad hstatus hbad =>
    obtain ⟨a, ha, hopen⟩ := hbad
    exact absurd (hstatus ▸ UnitResult.statusOf_of_open ha hopen) hclosed
  | held g h' hg _ _ hheld =>
    obtain rfl := Option.some.inj hg
    exact ⟨h', rfl, fun _ => hheld.mem_iff⟩

/-- What the two phases make of a backend when none of their units is open. -/
theorem asReported_of_phases {m m₁ m₂ : Memory} (hsetup₁ : m₁.setup = m.setup)
    (hsetup₂ : m₂.setup = m₁.setup)
    (hprojects : ∀ n, m.creates = true → ((∃ h, m₁.projects.get? n = some h)
      ↔ n ∈ (expectedOn m.registry.name projects).map ProjectSpec.name))
    (hothers : ∀ n, n ∉ (expectedOn m₁.registry.name projects).map ProjectSpec.name →
      m₂.projects.get? n = m₁.projects.get? n)
    (hspecs : ∀ spec ∈ expectedOn m₁.registry.name projects, ∀ h,
      m₁.projects.get? spec.name = some h → ∃ h', m₂.projects.get? spec.name = some h'
        ∧ (m₁.hasMembers = true → ∀ b, b ∈ h'.members ↔ b ∈ spec.members)) :
    AsReported projects m m₂ := by
  have hprofile := Memory.profile_of_setup hsetup₁
  have hregistry := Memory.registry_of_setup hsetup₁
  have hhas : m₁.hasMembers = m.hasMembers := congrArg Profile.hasMembers hprofile
  rw [hregistry] at hothers hspecs
  have hexpected : m.creates = true → ∀ spec ∈ expectedOn m.registry.name projects,
      ∃ h, m₁.projects.get? spec.name = some h := fun hc spec hspec =>
    (hprojects spec.name hc).2 (List.mem_map_of_mem hspec)
  refine ⟨hsetup₂.trans hsetup₁, fun hc n => ?_, fun hc hmembers spec hspec => ?_⟩
  · by_cases hn : n ∈ (expectedOn m.registry.name projects).map ProjectSpec.name
    · obtain ⟨spec, hspec, rfl⟩ := List.mem_map.1 hn
      obtain ⟨h, hh⟩ := hexpected hc spec hspec
      obtain ⟨h', hh', -⟩ := hspecs spec hspec h hh
      exact ⟨fun _ => hn, fun _ => ⟨h', hh'⟩⟩
    · rw [hothers n hn]
      exact hprojects n hc
  · obtain ⟨h, hh⟩ := hexpected hc spec hspec
    obtain ⟨h', hh', hbound⟩ := hspecs spec hspec h hh
    exact ⟨h', hh', hbound (hhas.trans hmembers)⟩

/-- **A fully successful report is true of every backend** — whatever the capabilities, repositories
and latencies of the backends, whatever they reject, and whatever interrupted the run: its deadline
or a cancellation, which stays signalled once it is (`Signals`). -/
theorem reconcile_truthful (hw : w.backends = ms.map .memory)
    (hchecked : (Snapshot.mk registries projects).check = .ok ())
    (hsettings : settings.check = .ok ()) (hdry : settings.dry = false)
    (hsuccess : (w.reconcile directory settings cancel projects).1.fullySuccessful = true) :
    ∃ ms' : List Memory,
      (w.reconcile directory settings cancel projects).2.backends = ms'.map .memory
      ∧ List.Forall₂ (AsReported projects) ms ms' := by
  have hclosed := Report.fullySuccessful_iff.1 hsuccess
  simp only [reconcile_eq, List.mem_append, UnitResult.mem_sortByLabel] at hclosed
  obtain ⟨ms₁, hw₁, hsetup₁, hprojects⟩ :=
    projectPhase_truthful hw hchecked hsettings hdry fun r hr => hclosed r (.inl hr)
  obtain ⟨ms₂, hw₂, hsetup₂, hmembers⟩ := memberPhase_truthful hw hw₁ hsetup₁ hchecked hsettings
    hdry fun r hr => hclosed r (.inr hr)
  refine ⟨ms₂, hw₂, Memory.forall₂_of_setups hsetup₁ hsetup₂ ?_⟩
  intro i m m₁ m₂ hm hm₁ hm₂ hset₁ hset₂
  exact asReported_of_phases hset₁ hset₂ (hprojects i m m₁ hm hm₁) (hmembers i m₁ m₂ hm₁ hm₂).1
    (hmembers i m₁ m₂ hm₁ hm₂).2

/-- A slow backend with a project that owns a repository. -/
def slowBackend : Memory :=
  { (Memory.ofRegistry ⟨"edge", "https://edge.example.com", ⟨"admin", "secret"⟩, .harbor, .leaf,
      ⟨true, none⟩, .empty⟩).addProject "old" ["app"] with latency := 20 }

/-- A project with one member. -/
def toolsProject : ProjectSpec := ⟨"tools", .everywhere, [], [⟨"ann", .user, "Guest"⟩], none⟩

theorem reconcile_truthful_slow :
    ∃ ms' : List Memory,
      ((ofMemories [slowBackend]).reconcile none ⟨2, 1000, false⟩ (some 900)
        [toolsProject]).2.backends = ms'.map .memory
      ∧ List.Forall₂ (AsReported [toolsProject]) [slowBackend] ms' := by
  have hchecked : (Snapshot.mk [] [toolsProject]).check = .ok () := by decide
  obtain ⟨hfirst, hsecond⟩ := phases_eq_phasesFor (ofMemories [slowBackend]) none ⟨2, 1000, false⟩
    (some 900) [toolsProject] 20 (by decide +kernel) (by decide +kernel)
  refine reconcile_truthful (show (ofMemories [slowBackend]).backends = [slowBackend].map .memory
    from rfl) hchecked rfl rfl (Report.fullySuccessful_iff.2 fun u hu => ?_)
  rw [reconcile_eq, hfirst, hsecond] at hu
  simp only [List.mem_append, UnitResult.mem_sortByLabel] at hu
  rcases hu with hu | hu
  · revert u
    decide +kernel
  · revert u
    decide +kernel

end World

end RegistryFleet
