import RegistryFleet.Proofs.Reconcile.OrderFree

/-!
# Proofs/Reconcile/Accounting — a report accounts for every unit once

The results of a phase come in the order in which its units end, and a report lists them by label.
What a unit is about is settled before its first step: whatever it is answered, and wherever it is
cut off, it ends in a result under its own registry and project. So a report depends on the results
alone and not on their order.

* `Work.EndsIn` — whatever the answers, the work ends in such a value; `endsIn_projectUnit` and
  `endsIn_memberUnit` are the two instances.
* `Fleet.Completion` — a run whose units take their steps and end in any order, under any signals;
  `Fleet.exists_completion` says that every run is one.
* `Fleet.report_accounts` — the report lists every registry and every project expected on one just
  once, in an order that does not depend on timing.
-/

namespace RegistryFleet

variable {ω α β : Type}

/-! ## What work ends in -/

namespace Work

/-- **Whatever the answers, the work ends in such a value.** -/
def EndsIn (Q : α → Prop) : Work α → Prop
  | .done a => Q a
  | .check next => ∀ i, EndsIn Q (next i)
  | .call _ next => ∀ answer, EndsIn Q (next answer)
  | .observe _ next => ∀ answer, EndsIn Q (next answer)
  | .settle _ next => ∀ out, EndsIn Q (next out)

/-- What follows on the work decides what the whole ends in. -/
theorem endsIn_bind {Q : β → Prop} {f : α → Work β} (hf : ∀ a, (f a).EndsIn Q) :
    ∀ w : Work α, (w.bind f).EndsIn Q
  | .done a => hf a
  | .check next => fun i => endsIn_bind hf (next i)
  | .call _ next => fun answer => endsIn_bind hf (next answer)
  | .observe _ next => fun answer => endsIn_bind hf (next answer)
  | .settle _ next => fun out => endsIn_bind hf (next out)

/-- A step leads no work astray. -/
theorem EndsIn.step {Q : α → Prop} {serve : Calls.Server ω}
    {settle : Effect → ω → Except Error Unit × ω} {calm : Prop} {a b : Work α × ω}
    (h : Work.Step serve settle calm a b) (ha : a.1.EndsIn Q) : b.1.EndsIn Q := by
  cases h with
  | check next _ i _ => exact ha i
  | call c next world => exact ha (serve c world).1
  | observe c next world => exact ha (.ok (serve c world).1)
  | abandon c next _ i _ => exact ha (.error i)
  | settle e next world => exact ha (settle e world).1

end Work

/-- **Steps of units lead no unit astray**, and leave none out. -/
theorem Machine.endsIn_steps {machine : Machine ω} {backendOf : Nat → Nat} {calm : Prop}
    {Q : Nat → α → Prop} {a b : List (Work α) × ω}
    (h : Relation.ReflTransGen (machine.Step backendOf calm) a b)
    (ha : ∀ (u : Nat) (w : Work α), a.1[u]? = some w → w.EndsIn (Q u)) :
    b.1.length = a.1.length ∧ ∀ (u : Nat) (w : Work α), b.1[u]? = some w → w.EndsIn (Q u) := by
  induction h with
  | refl => exact ⟨rfl, ha⟩
  | tail _ hstep ih =>
    obtain ⟨hlength, hends⟩ := ih
    cases hstep with
    | @unit works _ _ u w w' hu hw =>
      refine ⟨List.length_set.trans hlength, fun v x hx => ?_⟩
      rw [List.getElem?_set] at hx
      split at hx
      · next huv =>
        subst huv
        obtain rfl : w' = x := by simpa using (Option.ite_none_right_eq_some.1 hx).2
        exact (hends u w hu).step hw
      · exact hends v x hx

/-! ## What a unit is about -/

/-- **What a unit is about**: a registry, or a project on it. -/
def UnitResult.subject (r : UnitResult) : String × Option String := (r.registry, r.project)

/-- The label that a unit is listed by tells what it is about. -/
def subjectLabel (s : String × Option String) : String :=
  (UnitResult.plain s.1 s.2 .reconciled).label

/-- What the units of the first phase are about. -/
def registrySubjects (profiles : List Profile) : List (String × Option String) :=
  profiles.map fun p => (p.registry.name, none)

/-- What the units of the second phase are about. -/
def projectSubjects (profiles : List Profile) (projects : List ProjectSpec) :
    List (String × Option String) :=
  profiles.flatMap fun p =>
    (expectedOn p.registry.name projects).map fun spec => (p.registry.name, some spec.name)

section

variable {p : Profile} {dry : Bool}

/-- What the actions of a unit come to is reported under what the unit is about. -/
theorem endsIn_ofActions (registry : String) (project : Option String) (actions : List Action) :
    (Work.bind (Work.actions p dry actions) fun rs =>
      .done (UnitResult.ofActions registry project rs)).EndsIn fun r =>
        r.subject = (registry, project) := by
  refine Work.endsIn_bind (fun rs => ?_) _
  exact rfl

/-- **The unit of a registry reports under the registry**, whatever happens. -/
theorem endsIn_projectUnit (projects : List ProjectSpec) :
    (projectUnit p projects dry).EndsIn fun r => r.subject = (p.registry.name, none) := by
  intro i
  match i with
  | some i => exact rfl
  | none =>
    refine Work.endsIn_bind (fun observed => ?_) (Work.observing (Calls.one .listProjects))
    match observed with
    | .error i => exact rfl
    | .ok (.error e) => exact rfl
    | .ok (.ok observed) => exact endsIn_ofActions _ _ _

/-- **The unit of a project reports under the project**, whatever happens. -/
theorem endsIn_memberUnit (spec : ProjectSpec) :
    (memberUnit p spec dry).EndsIn fun r => r.subject = (p.registry.name, some spec.name) := by
  intro i
  match i with
  | some i => exact rfl
  | none =>
    change Work.EndsIn _ (ite _ _ _)
    split
    · exact rfl
    · refine Work.endsIn_bind (fun observed => ?_) (Work.observing (observeMembers spec.name))
      match observed with
      | .error i => exact rfl
      | .ok (.ok observed) => exact endsIn_ofActions _ _ _
      | .ok (.error (.notFound entity name)) =>
        change Work.EndsIn _ (ite _ _ _)
        split
        · exact endsIn_ofActions _ _ _
        · exact rfl
      | .ok (.error (.recoverable _)) => exact rfl
      | .ok (.error (.configuration _)) => exact rfl
      | .ok (.error (.notImplemented ..)) => exact rfl

end

/-- The units of the first phase are about the registries. -/
theorem endsIn_projectJob {profiles : List Profile} {projects : List ProjectSpec} {dry : Bool}
    {u : Nat} {job : Job UnitResult} (hu : (projectJobs profiles projects dry)[u]? = some job) :
    job.work.EndsIn fun r => some r.subject = (registrySubjects profiles)[u]? := by
  rw [World.getElem?_projectJobs] at hu
  obtain ⟨p, hp, rfl⟩ := Option.map_eq_some_iff.1 hu
  simp only [registrySubjects, List.getElem?_map, hp, Option.map_some, Option.some.injEq]
  exact endsIn_projectUnit projects

theorem map_snd_numbered (xs : List α) : (numbered xs).map Prod.snd = xs := by
  rw [numbered, List.map_snd_zip (by simp)]

/-- What the units of the second phase are about, unit by unit. -/
theorem projectSubjects_eq (profiles : List Profile) (projects : List ProjectSpec) :
    projectSubjects profiles projects
      = (memberSpots profiles projects).map fun s => (s.2.1.registry.name, some s.2.2.name) := by
  conv_lhs => rw [← map_snd_numbered profiles]
  simp only [projectSubjects, memberSpots, List.flatMap_map, List.map_flatMap, List.map_map]
  rfl

/-- The units of the second phase are about the projects expected on the registries. -/
theorem endsIn_memberJob {profiles : List Profile} {projects : List ProjectSpec} {dry : Bool}
    {u : Nat} {job : Job UnitResult} (hu : (memberJobs profiles projects dry)[u]? = some job) :
    job.work.EndsIn fun r => some r.subject = (projectSubjects profiles projects)[u]? := by
  rw [memberJobs_eq, List.getElem?_map] at hu
  obtain ⟨⟨i, p, spec⟩, hspot, rfl⟩ := Option.map_eq_some_iff.1 hu
  simp only [projectSubjects_eq, List.getElem?_map, hspot, Option.map_some, Option.some.injEq]
  exact endsIn_memberUnit spec

/-! ## Phases in any order -/

/-- **A phase carried out in some order** — its units take steps in any order, under any signals,
until all have ended; their results come in any order. -/
def Machine.Completes (machine : Machine ω) (jobs : List (Job α)) (before : ω) (results : List α)
    (after : ω) : Prop :=
  ∃ values, Relation.ReflTransGen (machine.Step (Job.backendOf jobs) False)
      (jobs.map Job.work, before) (values.map Work.done, after)
    ∧ results.Perm values

/-- **Every subject has its result**, and no other is there. -/
theorem Machine.Completes.subjects {machine : Machine ω} {jobs : List (Job UnitResult)}
    {before after : ω} {results : List UnitResult} {subjects : List (String × Option String)}
    (h : machine.Completes jobs before results after) (hlength : subjects.length = jobs.length)
    (hjobs : ∀ (u : Nat) job, jobs[u]? = some job →
      job.work.EndsIn fun r => some r.subject = subjects[u]?) :
    (results.map UnitResult.subject).Perm subjects := by
  obtain ⟨values, hsteps, hperm⟩ := h
  obtain ⟨hvalues, hends⟩ := Machine.endsIn_steps
    (Q := fun u r => some r.subject = subjects[u]?) hsteps fun u w hw => by
      rw [List.getElem?_map] at hw
      obtain ⟨job, hjob, rfl⟩ := Option.map_eq_some_iff.1 hw
      exact hjobs u job hjob
  simp only [List.length_map] at hvalues
  have heq : values.map UnitResult.subject = subjects := List.ext_getElem? fun u => by
    rw [List.getElem?_map]
    cases hr : values[u]? with
    | none =>
      have hu := List.getElem?_eq_none_iff.1 hr
      rw [List.getElem?_eq_none (by omega)]
      rfl
    | some r => exact hends u (.done r) (by rw [List.getElem?_map, hr]; rfl)
  rw [← heq]
  exact hperm.map _

/-- A phase that may hold a unit in flight is carried out in some order. -/
theorem Schedule.phase_completes (machine : Machine ω) (signals : Signals) {concurrent : Nat}
    (now : Nat) (jobs : List (Job α)) (world : ω) (hc : 0 < concurrent) :
    machine.Completes jobs world (phase machine signals concurrent now jobs world).values
      (phase machine signals concurrent now jobs world).world := by
  obtain ⟨values, hworks, hvalues⟩ := phase_ends machine signals now jobs world hc
  have hreaches : Relation.ReflTransGen (machine.Step (Job.backendOf jobs) False)
      (jobs.map Job.work, world) ((phase machine signals concurrent now jobs world).works,
        (phase machine signals concurrent now jobs world).world) := phase_reaches False.elim
  rw [hworks] at hreaches
  exact ⟨values, hreaches, hvalues⟩

/-! ## Listing by label -/

namespace UnitResult

variable {results : List UnitResult} {subjects : List (String × Option String)}

/-- **Results are listed strictly by label** where no two subjects have one label. -/
theorem pairwise_lt_sortByLabel (hlabels : (results.map label).Nodup) :
    (sortByLabel results).Pairwise fun a b => a.label < b.label := by
  have hnodup : ((sortByLabel results).map label).Nodup :=
    ((List.mergeSort_perm results _).map label).nodup_iff.2 hlabels
  refine (pairwise_sortByLabel results).imp₂ (fun a b hle hne => ?_) (List.pairwise_map.1 hnodup)
  exact String.not_le.1 fun hge => hne (String.le_antisymm hle hge)

/-- **The order in which results come does not show** where no two of them have one label. -/
theorem sortByLabel_congr {results' : List UnitResult} (h : results'.Perm results)
    (hlabels : (results.map label).Nodup) : sortByLabel results' = sortByLabel results := by
  have hread : ∀ r : UnitResult, label (id r) = r.label := fun _ => rfl
  simpa using map_sortByLabel hread (h.map id) hlabels

/-- Results whose subjects have labels of their own have labels of their own. -/
theorem nodup_labels (h : (results.map subject).Perm subjects)
    (hlabels : (subjects.map subjectLabel).Nodup) : (results.map label).Nodup := by
  have hmap : (results.map subject).map subjectLabel = results.map label := by
    rw [List.map_map]
    rfl
  exact hmap ▸ (h.map subjectLabel).nodup_iff.2 hlabels

/-- Listing results drops none and adds none. -/
theorem subjects_sortByLabel (h : (results.map subject).Perm subjects) :
    ((sortByLabel results).map subject).Perm subjects :=
  ((List.mergeSort_perm results _).map subject).trans h

end UnitResult

/-- **Every unit has one of the four statuses**, so that the counts of a report add up. -/
theorem Report.counts_add_up (r : Report) :
    r.succeeded + r.failed + r.skipped + r.notReconciled = r.units.length := by
  obtain ⟨dry, units⟩ := r
  simp only [succeeded, failed, skipped, notReconciled]
  induction units with
  | nil => rfl
  | cons u units ih =>
    simp only [List.countP_cons, List.length_cons, ← ih]
    cases u.status <;> simp <;> omega

/-! ## Whole runs -/

/-- **A run in some order** — the steps of the units of each phase in any order, under any signals,
and their results in any order. -/
structure Fleet.Completion (fleet : Fleet ω) (dry : Bool) (projects : List ProjectSpec)
    (world : ω) where
  /-- The results of the first phase, in the order in which they came. -/
  firsts : List UnitResult
  /-- The world between the phases. -/
  middle : ω
  /-- The results of the second phase, in the order in which they came. -/
  seconds : List UnitResult
  /-- The world after the run. -/
  after : ω
  first : fleet.machine.Completes (projectJobs fleet.profiles projects dry) world firsts middle
  second : fleet.machine.Completes (memberJobs fleet.profiles projects dry) middle seconds after

/-- What is reported of the run. -/
def Fleet.Completion.report {fleet : Fleet ω} {dry : Bool} {projects : List ProjectSpec} {world : ω}
    (run : fleet.Completion dry projects world) : Report :=
  ⟨dry, UnitResult.sortByLabel run.firsts ++ UnitResult.sortByLabel run.seconds⟩

/-- **A list of units that accounts for a fleet** — first the project sets of the registries, then
the members of the projects expected on them. A registry may have the label of a project of another
one, if its name has a slash; the two then stand in different parts. -/
structure Accounts (profiles : List Profile) (projects : List ProjectSpec)
    (sets members : List UnitResult) : Prop where
  /-- Every registry has its unit. -/
  registries : (sets.map UnitResult.subject).Perm (registrySubjects profiles)
  /-- They are listed by name, each name once. -/
  byName : sets.Pairwise fun a b => a.registry < b.registry
  /-- Every project expected on a registry has its unit. -/
  expected : (members.map UnitResult.subject).Perm (projectSubjects profiles projects)
  /-- They are listed by label, each label once. -/
  byLabel : members.Pairwise fun a b => a.label < b.label
  /-- No two units are about the same. -/
  once : ((sets ++ members).map UnitResult.subject).Nodup

namespace Fleet

variable {fleet : Fleet ω} {dry : Bool} {settings : RunSettings} {projects : List ProjectSpec}
  {world : ω}

/-- **Every run is carried out in some order.** -/
theorem exists_completion (hsettings : settings.check = .ok ()) (cancel : Option Nat) :
    ∃ run : fleet.Completion settings.dry projects world,
      (fleet.reconcile settings cancel projects world).1 = run.report
        ∧ (fleet.reconcile settings cancel projects world).2 = run.after :=
  ⟨⟨_, _, _, _, Schedule.phase_completes _ _ _ _ _ (RunSettings.concurrent_pos hsettings),
    Schedule.phase_completes _ _ _ _ _ (RunSettings.concurrent_pos hsettings)⟩, rfl, rfl⟩

/-- The results of the first phase are about the registries. -/
theorem Completion.subjects_firsts (run : fleet.Completion dry projects world) :
    (run.firsts.map UnitResult.subject).Perm (registrySubjects fleet.profiles) :=
  run.first.subjects (by simp [registrySubjects, projectJobs, numbered]) fun _ _ hu =>
    endsIn_projectJob hu

/-- The results of the second phase are about the projects expected on the registries. -/
theorem Completion.subjects_seconds (run : fleet.Completion dry projects world) :
    (run.seconds.map UnitResult.subject).Perm (projectSubjects fleet.profiles projects) :=
  run.second.subjects (by rw [projectSubjects_eq, memberJobs_eq, List.length_map, List.length_map])
    fun _ _ hu => endsIn_memberJob hu

end Fleet

/-- Registries with names of their own have labels of their own. -/
theorem nodup_registryLabels {profiles : List Profile}
    (hnames : (profiles.map fun p => p.registry.name).Nodup) :
    ((registrySubjects profiles).map subjectLabel).Nodup := by
  rw [registrySubjects, List.map_map]
  exact hnames

/-- The projects expected on registries with names of their own have labels of their own. -/
theorem nodup_projectLabels {profiles : List Profile} {registries : List RegistrySpec}
    {projects : List ProjectSpec} (hnames : (profiles.map fun p => p.registry.name).Nodup)
    (hchecked : (Snapshot.mk registries projects).check = .ok ()) :
    ((projectSubjects profiles projects).map subjectLabel).Nodup := by
  have hsegments := Snapshot.no_slash_projects hchecked
  rw [projectSubjects_eq, List.map_map]
  exact World.nodup_memberLabels hnames hsegments (Snapshot.nodup_expectedOn hchecked)

/-- No registry is a project. -/
theorem nodup_subjects {profiles : List Profile} {projects : List ProjectSpec}
    (hsets : ((registrySubjects profiles).map subjectLabel).Nodup)
    (hmembers : ((projectSubjects profiles projects).map subjectLabel).Nodup) :
    (registrySubjects profiles ++ projectSubjects profiles projects).Nodup := by
  refine List.nodup_append.2 ⟨.of_map _ hsets, .of_map _ hmembers, fun s hs t ht he => ?_⟩
  obtain ⟨p, -, rfl⟩ := List.mem_map.1 hs
  obtain ⟨q, -, hq⟩ := List.mem_flatMap.1 ht
  obtain ⟨spec, -, rfl⟩ := List.mem_map.1 hq
  cases (Prod.mk.inj he).2

namespace Fleet

variable {fleet : Fleet ω} {dry : Bool} {settings : RunSettings} {registries : List RegistrySpec}
  {projects : List ProjectSpec} {world : ω}

/-- **A run in any order accounts for the fleet.** -/
theorem Completion.accounts (hnames : (fleet.profiles.map fun p => p.registry.name).Nodup)
    (hchecked : (Snapshot.mk registries projects).check = .ok ())
    (run : fleet.Completion dry projects world) :
    Accounts fleet.profiles projects (UnitResult.sortByLabel run.firsts)
      (UnitResult.sortByLabel run.seconds) := by
  have hsets := nodup_registryLabels hnames
  have hmembers := nodup_projectLabels hnames hchecked
  have hfirsts := UnitResult.subjects_sortByLabel run.subjects_firsts
  have hseconds := UnitResult.subjects_sortByLabel run.subjects_seconds
  have hlabel : ∀ r ∈ UnitResult.sortByLabel run.firsts, r.label = r.registry := fun r hr => by
    obtain ⟨p, -, hp⟩ := List.mem_map.1 (hfirsts.subset (List.mem_map_of_mem hr))
    rw [UnitResult.label, ← (Prod.mk.inj hp).2]
  refine ⟨hfirsts, ?_, hseconds, ?_, ?_⟩
  · refine (UnitResult.pairwise_lt_sortByLabel
      (UnitResult.nodup_labels run.subjects_firsts hsets)).imp_of_mem fun {a b} ha hb hab => ?_
    rwa [hlabel a ha, hlabel b hb] at hab
  · exact UnitResult.pairwise_lt_sortByLabel
      (UnitResult.nodup_labels run.subjects_seconds hmembers)
  · rw [List.map_append]
    exact (hfirsts.append hseconds).nodup_iff.2 (nodup_subjects hsets hmembers)

/-- **The report accounts for every unit once, and does not depend on timing.** The run that is
reported is carried out in some order; in whatever order a run is carried out, its report lists
every registry by name and then every project expected on one by label, the counts add up to the
number of units, and a run with the same results has the same report. A cancellation that was
signalled stays signalled (`Signals`). -/
theorem report_accounts (hnames : (fleet.profiles.map fun p => p.registry.name).Nodup)
    (hchecked : (Snapshot.mk registries projects).check = .ok ())
    (hsettings : settings.check = .ok ()) (cancel : Option Nat) (world : ω) :
    (∃ run : fleet.Completion settings.dry projects world,
      (fleet.reconcile settings cancel projects world).1 = run.report)
    ∧ ∀ run : fleet.Completion settings.dry projects world,
      (∃ sets members, run.report.units = sets ++ members
        ∧ Accounts fleet.profiles projects sets members)
      ∧ run.report.succeeded + run.report.failed + run.report.skipped + run.report.notReconciled
        = run.report.units.length
      ∧ ∀ run' : fleet.Completion settings.dry projects world, run'.firsts.Perm run.firsts →
        run'.seconds.Perm run.seconds → run'.report = run.report := by
  refine ⟨?_, fun run => ⟨⟨_, _, rfl, run.accounts hnames hchecked⟩, run.report.counts_add_up,
    fun run' hfirsts hseconds => ?_⟩⟩
  · obtain ⟨run, hrun, -⟩ := exists_completion hsettings cancel
    exact ⟨run, hrun⟩
  · have hsets := UnitResult.nodup_labels run.subjects_firsts (nodup_registryLabels hnames)
    have hmembers := UnitResult.nodup_labels run.subjects_seconds
      (nodup_projectLabels hnames hchecked)
    rw [Completion.report, Completion.report, UnitResult.sortByLabel_congr hfirsts hsets,
      UnitResult.sortByLabel_congr hseconds hmembers]

/-- A registry whose name is that of another one with a project behind it. -/
def overlappingPair : World := World.ofMemories [World.distant "north" 20,
  World.distant "north/tools" 35]

theorem report_accounts_overlap :
    ∃ run : (overlappingPair.fleet none).Completion false World.robotProjects overlappingPair,
      ((overlappingPair.fleet none).reconcile ⟨3, 1000, false⟩ (some 30) World.robotProjects
        overlappingPair).1 = run.report
      ∧ ∃ sets members, run.report.units = sets ++ members
        ∧ Accounts (overlappingPair.fleet none).profiles World.robotProjects sets members := by
  have hnames : ((overlappingPair.fleet none).profiles.map fun p => p.registry.name).Nodup := by
    decide
  have hchecked : (Snapshot.mk [] World.robotProjects).check = .ok () := by decide
  obtain ⟨⟨run, hrun⟩, hall⟩ := report_accounts hnames hchecked
    (show (RunSettings.mk 3 1000 false).check = .ok () from rfl) (some 30) overlappingPair
  exact ⟨run, hrun, (hall run).1⟩

end Fleet

-- The two subjects are told apart by the part of the report that they stand in.
example : subjectLabel ("north/tools", none) = subjectLabel ("north", some "tools") := by decide

end RegistryFleet
