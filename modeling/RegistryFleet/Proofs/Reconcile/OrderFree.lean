import RegistryFleet.Proofs.Reconcile.Convergence
import RegistryFleet.Proofs.Reconcile.Determined

/-!
# Proofs/Reconcile/OrderFree — the order of steps does not show

The units of the first phase own a backend each, those of the second a project each, so that all
interleavings of a phase agree. The second phase of one run begins where its first phase has ended,
in a world that differs from that of another run in files, logs and counts of robots alone, none of
which a unit sees.

* `World.Interleaving` — a run whose phases are interleaved in any way; `World.inTurn` is the one
  that does the units one after another.
* `World.Interleaving.agree` — any two of them agree.
* `World.reconcile_inTurn` — so does every run that no signal disturbs, whatever the latencies and
  however many units it holds in flight.
-/

namespace RegistryFleet

/-! ## Reports in the order of labels -/

/-- The label that a unit is listed by. -/
def Deeds.label (r : Deeds) : String := (UnitResult.plain r.registry r.project .reconciled).label

/-- What stands behind the last slash. -/
theorem takeWhile_label (registry : String) {name : String} (h : '/' ∉ name.toList) :
    (registry ++ "/" ++ name).toList.reverse.takeWhile (· != '/') = name.toList.reverse := by
  have hname : ∀ c ∈ name.toList.reverse, (c != '/') = true := fun c hc => by
    simpa using fun he : c = '/' => h (he ▸ List.mem_reverse.1 hc)
  simp [List.takeWhile_append_of_pos hname]

/-- The label of a project on a registry tells both: the name of a project is a single segment. -/
theorem label_inj {registry registry' name name' : String} (h : '/' ∉ name.toList)
    (h' : '/' ∉ name'.toList) (hlabel : registry ++ "/" ++ name = registry' ++ "/" ++ name') :
    registry = registry' ∧ name = name' := by
  have hname : name.toList.reverse = name'.toList.reverse := by
    rw [← takeWhile_label registry h, hlabel, takeWhile_label registry' h']
  obtain rfl := String.toList_inj.1 (List.reverse_injective hname)
  have hlist := congrArg String.toList hlabel
  exact ⟨by simpa [String.toList_inj] using hlist, rfl⟩

/-- Elements that are labelled like those of another list, in which no label occurs twice. -/
theorem nodup_map_of_getElem? {α β : Type} {xs : List α} {ys : List β} {f : α → String}
    {g : β → String}
    (h : ∀ (u : Nat) x, xs[u]? = some x → ∃ y, ys[u]? = some y ∧ f x = g y)
    (hys : (ys.map g).Nodup) : (xs.map f).Nodup := by
  have hpre : xs.map f <+: ys.map g := List.prefix_iff_getElem?.2 fun u hu => by
    have hu : u < xs.length := by simpa using hu
    obtain ⟨y, hy, hlabel⟩ := h u xs[u] (List.getElem?_eq_getElem hu)
    rw [List.getElem?_map, hy, List.getElem_map, hlabel, Option.map_some]
  exact hys.sublist hpre.sublist

theorem label_deeds (r : UnitResult) : r.deeds.label = r.label := rfl

namespace UnitResult

theorem pairwise_sortByLabel (units : List UnitResult) :
    (sortByLabel units).Pairwise fun a b => a.label ≤ b.label := by
  have htrans : ∀ a b c : UnitResult, decide (a.label ≤ b.label) = true →
      decide (b.label ≤ c.label) = true → decide (a.label ≤ c.label) = true :=
    fun _ _ _ hab hbc => decide_eq_true
      (String.le_trans (of_decide_eq_true hab) (of_decide_eq_true hbc))
  have htotal : ∀ a b : UnitResult,
      (decide (a.label ≤ b.label) || decide (b.label ≤ a.label)) = true := fun a b => by
    simpa using String.le_total a.label b.label
  exact (List.pairwise_mergeSort htrans htotal units).imp of_decide_eq_true

/-- **Reports that read the same up to order list the same**, where labels are distinct and can be
read. -/
theorem map_sortByLabel {β : Type} {read : UnitResult → β} {labelOf : β → String}
    (hread : ∀ r, labelOf (read r) = r.label) {xs ys : List UnitResult}
    (h : (xs.map read).Perm (ys.map read)) (hlabels : (ys.map label).Nodup) :
    (sortByLabel xs).map read = (sortByLabel ys).map read := by
  have hsorted : ∀ zs : List UnitResult,
      ((sortByLabel zs).map read).Pairwise fun a b => labelOf a ≤ labelOf b := fun zs => by
    refine List.pairwise_map.2 ((pairwise_sortByLabel zs).imp fun {a b} hab => ?_)
    rw [hread, hread]
    exact hab
  have hperm : ∀ zs : List UnitResult, ((sortByLabel zs).map read).Perm (zs.map read) :=
    fun zs => (List.mergeSort_perm zs _).map read
  have hnodup : ((ys.map read).map labelOf).Nodup := by
    rw [List.map_map, show labelOf ∘ read = label from funext hread]
    exact hlabels
  refine List.Perm.eq_of_pairwise (fun a b ha hb hab hba => ?_) (hsorted xs) (hsorted ys)
    ((hperm xs).trans (h.trans (hperm ys).symm))
  have ha : a ∈ ys.map read := h.mem_iff.1 ((hperm xs).mem_iff.1 ha)
  have hb : b ∈ ys.map read := (hperm ys).mem_iff.1 hb
  exact List.inj_on_of_nodup_map hnodup ha hb (String.le_antisymm hab hba)

end UnitResult

namespace World

/-! ## Runs in any order -/

/-- **A run in some order** — both phases interleaved in any way, without signals. -/
structure Interleaving (w : World) (directory : Option CredentialDirectory) (dry : Bool)
    (projects : List ProjectSpec) where
  /-- The results of the first phase, by the numbers of its units. -/
  firsts : List UnitResult
  /-- The world between the phases. -/
  middle : World
  /-- The results of the second phase, by the numbers of its units. -/
  seconds : List UnitResult
  /-- The world after the run. -/
  after : World
  first : (w.machine directory).Interleaves
    (projectJobs (w.backends.map Backend.profile) projects dry) w firsts middle
  second : (w.machine directory).Interleaves
    (memberJobs (w.backends.map Backend.profile) projects dry) middle seconds after

section

variable (w : World) (directory : Option CredentialDirectory) (dry : Bool)
  (projects : List ProjectSpec)

/-- **The run that does the units one after another.** -/
def inTurn : w.Interleaving directory dry projects :=
  let first := (w.machine directory).inTurn
    (projectJobs (w.backends.map Backend.profile) projects dry) w
  let second := (w.machine directory).inTurn
    (memberJobs (w.backends.map Backend.profile) projects dry) first.2
  ⟨first.1, first.2, second.1, second.2, Machine.inTurn_interleaves _ _ _,
    Machine.inTurn_interleaves _ _ _⟩

end

/-- **What a backend holds**: its projects with their repositories and members. -/
def contents (i : Nat) (w : World) : Option (Keyed Holding) := (w.memory? i).map Memory.projects

variable {w w' : World} {ms ms₁ : List Memory} {directory : Option CredentialDirectory}
  {dry : Bool} {settings : RunSettings} {cancel : Option Nat} {registries : List RegistrySpec}
  {projects : List ProjectSpec}

/-- A report lists the project sets first, then the members. -/
def Interleaving.units (run : w.Interleaving directory dry projects) : List UnitResult :=
  UnitResult.sortByLabel run.firsts ++ UnitResult.sortByLabel run.seconds

/-- **A run that no signal disturbs is an interleaving.** -/
theorem exists_interleaving (hsettings : settings.check = .ok ())
    (hundisturbed : w.Undisturbed directory settings cancel projects) :
    ∃ run : w.Interleaving directory settings.dry projects,
      (w.projectPhase directory settings cancel projects).values.Perm run.firsts
      ∧ (w.memberPhase directory settings cancel projects).values.Perm run.seconds
      ∧ (w.memberPhase directory settings cancel projects).world = run.after := by
  have hc := RunSettings.concurrent_pos hsettings
  have hcalm : (Signals.mk settings.deadline cancel).at?
      (w.projectPhase directory settings cancel projects).now = none :=
    Signals.at?_eq_none_of_le hundisturbed Schedule.now_le_phase
  obtain ⟨firsts, hfirst, hfirsts⟩ := Schedule.phase_interleaves hc hcalm
  obtain ⟨seconds, hsecond, hseconds⟩ := Schedule.phase_interleaves hc hundisturbed
  exact ⟨⟨firsts, _, seconds, _, hfirst, hsecond⟩, hfirsts, hseconds, rfl⟩

/-! ## The first phase -/

theorem memory?_congr (h : w.backends = w'.backends) (i : Nat) : w.memory? i = w'.memory? i := by
  rw [memory?, memory?, h]

/-- Backends in memory that answer to the same numbers are the same. -/
theorem backends_ext (h : w.InMemory ms) (h' : w'.InMemory ms)
    (hsame : ∀ i < ms.length, w.memory? i = w'.memory? i) : w.backends = w'.backends := by
  obtain ⟨ns, hns, hsetup⟩ := h
  obtain ⟨ns', hns', hsetup'⟩ := h'
  have hlength : ns.length = ms.length := by simpa using congrArg List.length hsetup
  have hlength' : ns'.length = ms.length := by simpa using congrArg List.length hsetup'
  have heq : ns = ns' := List.ext_getElem? fun i => by
    by_cases hi : i < ms.length
    · rw [← memory?_of_backends hns, ← memory?_of_backends hns', hsame i hi]
    · rw [List.getElem?_eq_none (by omega), List.getElem?_eq_none (by omega)]
  rw [hns, hns', heq]

/-- The shares of the units of the first phase. -/
def backendShares (w : World) (directory : Option CredentialDirectory) (dry : Bool)
    (projects : List ProjectSpec) (ms : List Memory) : Division World (Option Memory) :=
  byBackend (w.machine directory)
    (Job.backendOf (projectJobs (w.backends.map Backend.profile) projects dry)) ms w.files

/-- A unit of the first phase is determined by its backend. -/
theorem determined_projectJob (hw : w.backends = ms.map .memory) {u : Nat} {job : Job UnitResult}
    (hjob : (projectJobs (w.backends.map Backend.profile) projects dry)[u]? = some job) :
    (w.backendShares directory dry projects ms).Determined u
      (fun r _ => ∃ m, ms[u]? = some m ∧ r.registry = m.registry.name ∧ r.project = none)
      UnitResult.deeds job.work (w.memory? u) := by
  have hu := Job.backendOf_eq hjob
  rw [getElem?_projectJobs, profiles_of_setups hw rfl, List.getElem?_map, Option.map_map] at hjob
  obtain ⟨m, hm, rfl⟩ := Option.map_eq_some_iff.1 hjob
  have hview : w.memory? u = some m := (memory?_of_backends hw u).trans hm
  have hunit : (w.backendShares directory dry projects ms).Determined u
      (fun r _ => r.registry = m.profile.registry.name ∧ r.project = none) UnitResult.deeds
      (projectUnit m.profile projects dry) (some m) :=
    determined_projectUnit rfl (show (w.machine directory).settle = settle directory from rfl) hu m
  obtain ⟨deeds, v', hlabel, hsecure⟩ := hunit
  rw [hview]
  exact ⟨deeds, v', ⟨m, hm, hlabel⟩, hsecure⟩

/-- **The first phases of two runs agree**, and leave the same backends. -/
theorem Interleaving.firsts_agree (hw : w.backends = ms.map .memory)
    (run run' : w.Interleaving directory dry projects) :
    run.firsts.map UnitResult.deeds = run'.firsts.map UnitResult.deeds
      ∧ run.middle.InMemory ms ∧ run.middle.backends = run'.middle.backends
      ∧ ∀ (u : Nat) r, run.firsts[u]? = some r →
          ∃ m, ms[u]? = some m ∧ r.registry = m.registry.name ∧ r.project = none := by
  have hunits : ms.length
      = (projectJobs (w.backends.map Backend.profile) projects dry).length := by
    simp [projectJobs, numbered, hw]
  have hsound : w.InMemory ms ∧ w.files = w.files := ⟨⟨ms, hw, rfl⟩, rfl⟩
  obtain ⟨hdeeds, ⟨hmiddle, -⟩, ⟨hmiddle', -⟩, hviews, hlabels⟩ :=
    Division.interleavings_agree (d := w.backendShares directory dry projects ms) rfl hunits
      hsound hsound (fun _ _ _ => rfl) (fun _ _ => determined_projectJob hw) run.first run'.first
  exact ⟨hdeeds, hmiddle, backends_ext hmiddle hmiddle' fun i hi => hviews i (hunits ▸ hi), hlabels⟩

/-! ## The second phase -/

/-- The shares of the units of the second phase, and what else there is. -/
def projectShares (w : World) (directory : Option CredentialDirectory) (dry : Bool)
    (projects : List ProjectSpec) (ms₁ : List Memory) (base : World) :
    Division World (Option Holding × Unit) :=
  byProject (w.machine directory)
    (Job.backendOf (memberJobs (w.backends.map Backend.profile) projects dry)) ms₁
    (memberPlaces (w.backends.map Backend.profile) projects) base .blank

/-- A unit of the second phase is determined by its project. -/
theorem determined_memberJob {base before : World} (hw : w.backends = ms.map .memory)
    (hsetup : ms₁.map Memory.setup = ms.map Memory.setup)
    (he : ∀ registry, ((expectedOn registry projects).map ProjectSpec.name).Nodup) {u : Nat}
    {job : Job UnitResult}
    (hjob : (memberJobs (w.backends.map Backend.profile) projects dry)[u]? = some job) :
    (w.projectShares directory dry projects ms₁ base).Determined u
      (fun r _ => ∃ i p spec,
        (memberSpots (w.backends.map Backend.profile) projects)[u]? = some (i, p, spec)
          ∧ r.registry = p.registry.name ∧ r.project = some spec.name)
      UnitResult.deeds job.work
      ((w.projectShares directory dry projects ms₁ base).view u before) := by
  have hspots := hjob
  rw [memberJobs_eq, List.getElem?_map] at hspots
  obtain ⟨⟨i, p, spec⟩, hu, rfl⟩ := Option.map_eq_some_iff.1 hspots
  have hplace := getElem?_memberPlaces hu
  have hspot := hu
  rw [profiles_of_setups hw hsetup] at hspot
  obtain ⟨m, hm, -⟩ := getElem?_memberSpots hspot
  have hunit : ∀ o, (w.projectShares directory dry projects ms₁ base).Determined u
      (fun r _ => r.registry = p.registry.name ∧ r.project = some spec.name) UnitResult.deeds
      (memberUnit p spec dry) (o, ()) := fun o =>
    determined_memberUnit rfl hplace (Job.backendOf_eq hjob) hm (nodup_memberPlaces _ he)
      (show (w.machine directory).settle = settle directory from rfl) rfl
  obtain ⟨deeds, v', hlabel, hsecure⟩ := hunit _
  exact ⟨deeds, v', ⟨i, p, spec, hu, hlabel⟩, hsecure⟩

theorem holding?_congr (h : w.backends = w'.backends) (place : Nat × String) :
    w.holding? place = w'.holding? place := by
  rw [holding?, holding?, memory?_congr h]

/-- Backends in memory that hold the same projects have the same contents. -/
theorem contents_ext (h : w.InMemory ms) (h' : w'.InMemory ms)
    (hsame : ∀ place, w.holding? place = w'.holding? place) (i : Nat) :
    w.contents i = w'.contents i := by
  obtain ⟨ns, hns, hsetup⟩ := h
  obtain ⟨ns', hns', hsetup'⟩ := h'
  rw [contents, contents, memory?_of_backends hns, memory?_of_backends hns']
  cases hm : ns[i]? with
  | none =>
    have hlength : ns'.length = ns.length := by
      simpa using congrArg List.length (hsetup'.trans hsetup.symm)
    have hi : ns.length ≤ i := List.getElem?_eq_none_iff.1 hm
    rw [List.getElem?_eq_none (by omega)]
  | some m =>
    obtain ⟨m', hm', -⟩ := Memory.getElem?_of_setups (hsetup.trans hsetup'.symm) hm
    rw [hm']
    refine congrArg some (Keyed.ext_get? fun name => ?_)
    rw [← holding?_of_backends hns hm, ← holding?_of_backends hns' hm', hsame]

/-- **The second phases of two runs agree**, and leave the same contents. -/
theorem Interleaving.seconds_agree (hw : w.backends = ms.map .memory)
    (he : ∀ registry, ((expectedOn registry projects).map ProjectSpec.name).Nodup)
    (run run' : w.Interleaving directory dry projects) :
    run.seconds.map UnitResult.deeds = run'.seconds.map UnitResult.deeds
      ∧ (∀ i, run.after.contents i = run'.after.contents i)
      ∧ ∀ (u : Nat) r, run.seconds[u]? = some r → ∃ i p spec,
          (memberSpots (w.backends.map Backend.profile) projects)[u]? = some (i, p, spec)
            ∧ r.registry = p.registry.name ∧ r.project = some spec.name := by
  obtain ⟨-, ⟨ms₁, hmiddle, hsetup⟩, hsame, -⟩ := Interleaving.firsts_agree hw run run'
  have hunits : (memberPlaces (w.backends.map Backend.profile) projects).length
      = (memberJobs (w.backends.map Backend.profile) projects dry).length := by
    rw [memberJobs_eq, memberPlaces, List.length_map, List.length_map]
  obtain ⟨hdeeds, ⟨hafter, -, hothers⟩, ⟨hafter', -, hothers'⟩, hviews, hlabels⟩ :=
    Division.interleavings_agree (d := w.projectShares directory dry projects ms₁ run.middle) rfl
      hunits
      ⟨⟨ms₁, hmiddle, rfl⟩, trivial, fun _ _ => rfl⟩
      ⟨⟨ms₁, hsame ▸ hmiddle, rfl⟩, trivial, fun place _ => holding?_congr hsame.symm place⟩
      (fun u _ _ => Prod.ext (holding?_congr hsame _) rfl)
      (fun _ _ => determined_memberJob hw hsetup he) run.second run'.second
  refine ⟨hdeeds, contents_ext hafter hafter' fun place => ?_, hlabels⟩
  by_cases hplace : place ∈ memberPlaces (w.backends.map Backend.profile) projects
  · obtain ⟨u, hu⟩ := List.getElem?_of_mem hplace
    have hview := hviews u (hunits ▸ (List.getElem?_eq_some_iff.1 hu).1)
    simp only [projectShares, byProject, hu, Option.getD_some] at hview
    exact (Prod.mk.inj hview).1
  · rw [hothers place hplace, hothers' place hplace]

/-! ## Labels -/

/-- **No two units of the second phase have one label**, where no two registries have one name. -/
theorem nodup_memberLabels {profiles : List Profile}
    (hnames : (profiles.map fun p => p.registry.name).Nodup)
    (hsegments : ∀ spec ∈ projects, '/' ∉ spec.name.toList)
    (he : ∀ registry, ((expectedOn registry projects).map ProjectSpec.name).Nodup) :
    ((memberSpots profiles projects).map fun s =>
      s.2.1.registry.name ++ "/" ++ s.2.2.name).Nodup := by
  have hplaces : ((memberSpots profiles projects).map fun s => (s.1, s.2.2.name)).Nodup :=
    nodup_memberPlaces profiles he
  refine List.Nodup.map_on ?_ (.of_map _ hplaces)
  rintro ⟨i, p, spec⟩ hs ⟨j, q, spec'⟩ ht hlabel
  obtain ⟨hp, hspec⟩ := mem_memberSpots.1 hs
  obtain ⟨hq, hspec'⟩ := mem_memberSpots.1 ht
  obtain ⟨hregistry, hname⟩ := label_inj (hsegments spec (List.mem_of_mem_filter hspec))
    (hsegments spec' (List.mem_of_mem_filter hspec')) hlabel
  have hi : i < (profiles.map fun p => p.registry.name).length := by
    rw [List.length_map]
    exact (List.getElem?_eq_some_iff.1 hp).1
  have hij : i = j := (List.getElem?_inj hi hnames).1 <| by
    rw [List.getElem?_map, List.getElem?_map, hp, hq, Option.map_some, Option.map_some, hregistry]
  exact List.inj_on_of_nodup_map hplaces hs ht (Prod.ext hij hname)

theorem Interleaving.nodup_firsts (hw : w.backends = ms.map .memory)
    (hnames : (ms.map fun m => m.registry.name).Nodup)
    (run : w.Interleaving directory dry projects) : (run.firsts.map UnitResult.label).Nodup := by
  obtain ⟨-, -, -, hlabels⟩ := Interleaving.firsts_agree hw run run
  refine nodup_map_of_getElem? (fun u r hr => ?_) hnames
  obtain ⟨m, hm, hregistry, hproject⟩ := hlabels u r hr
  exact ⟨m, hm, by rw [UnitResult.label, hproject, hregistry]⟩

theorem Interleaving.nodup_seconds (hw : w.backends = ms.map .memory)
    (hnames : (ms.map fun m => m.registry.name).Nodup)
    (hchecked : (Snapshot.mk registries projects).check = .ok ())
    (run : w.Interleaving directory dry projects) : (run.seconds.map UnitResult.label).Nodup := by
  have he := Snapshot.nodup_expectedOn hchecked
  obtain ⟨-, -, hlabels⟩ := Interleaving.seconds_agree hw he run run
  have hprofiles : ((w.backends.map Backend.profile).map fun p => p.registry.name).Nodup := by
    rw [profiles_of_setups hw rfl, List.map_map]
    exact hnames
  have hsegments := Snapshot.no_slash_projects hchecked
  refine nodup_map_of_getElem? (fun u r hr => ?_) (nodup_memberLabels hprofiles hsegments he)
  obtain ⟨i, p, spec, hspot, hregistry, hproject⟩ := hlabels u r hr
  exact ⟨(i, p, spec), hspot, by rw [UnitResult.label, hproject, hregistry]⟩

/-! ## The whole run -/

/-- **Any two interleavings agree**: unit by unit in what their actions do and what becomes of them,
and backend by backend in what it holds at the end. -/
theorem Interleaving.agree (hw : w.backends = ms.map .memory)
    (hchecked : (Snapshot.mk registries projects).check = .ok ())
    (run run' : w.Interleaving directory dry projects) :
    run.firsts.map UnitResult.deeds = run'.firsts.map UnitResult.deeds
      ∧ run.seconds.map UnitResult.deeds = run'.seconds.map UnitResult.deeds
      ∧ ∀ i, run.after.contents i = run'.after.contents i := by
  obtain ⟨hfirsts, -⟩ := Interleaving.firsts_agree hw run run'
  obtain ⟨hseconds, hcontents, -⟩ :=
    Interleaving.seconds_agree hw (Snapshot.nodup_expectedOn hchecked) run run'
  exact ⟨hfirsts, hseconds, hcontents⟩

/-- **The order of steps does not show.** However the steps of the units of each phase are
interleaved, every action of every unit ends as if the units were done one after another, and so
does what every backend holds; and so for every run that no signal disturbs, however many units it
holds in flight and however slow the backends are. A signal that has come stays (`Signals`), so none
disturbs a run if none has come by its end. -/
theorem reconcile_inTurn (hw : w.backends = ms.map .memory)
    (hnames : (ms.map fun m => m.registry.name).Nodup)
    (hchecked : (Snapshot.mk registries projects).check = .ok ())
    (directory : Option CredentialDirectory) (dry : Bool) :
    (∀ run : w.Interleaving directory dry projects,
      run.firsts.map UnitResult.deeds
          = (w.inTurn directory dry projects).firsts.map UnitResult.deeds
        ∧ run.seconds.map UnitResult.deeds
          = (w.inTurn directory dry projects).seconds.map UnitResult.deeds
        ∧ ∀ i, run.after.contents i = (w.inTurn directory dry projects).after.contents i)
      ∧ ∀ settings cancel, settings.check = .ok () → settings.dry = dry →
        w.Undisturbed directory settings cancel projects →
          (w.reconcile directory settings cancel projects).1.units.map UnitResult.deeds
              = (w.inTurn directory dry projects).units.map UnitResult.deeds
            ∧ ∀ i, (w.reconcile directory settings cancel projects).2.contents i
              = (w.inTurn directory dry projects).after.contents i := by
  refine ⟨fun run => Interleaving.agree hw hchecked run _, ?_⟩
  rintro settings cancel hsettings rfl hundisturbed
  obtain ⟨run, hfirsts, hseconds, hafter⟩ := exists_interleaving hsettings hundisturbed
  obtain ⟨hdeeds, hdeeds', hcontents⟩ :=
    Interleaving.agree hw hchecked run (w.inTurn directory settings.dry projects)
  rw [reconcile_eq, List.map_append, Interleaving.units, List.map_append]
  refine ⟨congrArg₂ _ ?_ ?_, fun i => ?_⟩
  · refine UnitResult.map_sortByLabel label_deeds ?_ (Interleaving.nodup_firsts hw hnames _)
    rw [← hdeeds]
    exact hfirsts.map _
  · refine UnitResult.map_sortByLabel label_deeds ?_
      (Interleaving.nodup_seconds hw hnames hchecked _)
    rw [← hdeeds']
    exact hseconds.map _
  · rw [← hcontents i, ← hafter]

/-- A slow backend that is empty. -/
def distant (name : String) (latency : Nat) : Memory :=
  { Memory.ofRegistry ⟨name, "https://" ++ name ++ ".example.com", ⟨"admin", "secret"⟩, .harbor,
      .leaf, ⟨true, none⟩, .empty⟩ with latency := latency }

/-- Two slow backends. -/
def distantPair : World := ofMemories [distant "north" 20, distant "south" 35]

/-- Two projects with a robot each, whose passwords are drawn from one count. -/
def robotProjects : List ProjectSpec :=
  [⟨"tools", .everywhere, [], [⟨"ci", .robot, "PullOnly"⟩], none⟩,
    ⟨"web", .everywhere, [], [⟨"ci", .robot, "PullOnly"⟩, ⟨"ann", .user, "Guest"⟩], none⟩]

theorem reconcile_inTurn_slow :
    (distantPair.reconcile none ⟨3, 1000, false⟩ (some 900) robotProjects).1.units.map
        UnitResult.deeds
      = (distantPair.inTurn none false robotProjects).units.map UnitResult.deeds
    ∧ ∀ i, (distantPair.reconcile none ⟨3, 1000, false⟩ (some 900) robotProjects).2.contents i
      = (distantPair.inTurn none false robotProjects).after.contents i := by
  have hchecked : (Snapshot.mk [] robotProjects).check = .ok () := by decide
  have hnames : ([distant "north" 20, distant "south" 35].map fun m => m.registry.name).Nodup := by
    decide
  obtain ⟨hfirst, hsecond⟩ := phases_eq_phasesFor distantPair none ⟨3, 1000, false⟩ (some 900)
    robotProjects 60 (by decide +kernel) (by decide +kernel)
  have hundisturbed : distantPair.Undisturbed none ⟨3, 1000, false⟩ (some 900) robotProjects := by
    rw [Undisturbed, finish, hsecond]
    decide +kernel
  exact (reconcile_inTurn (show distantPair.backends = [distant "north" 20, distant "south" 35].map
    .memory from rfl) hnames hchecked none false).2 ⟨3, 1000, false⟩ (some 900) rfl rfl hundisturbed

end World

end RegistryFleet
