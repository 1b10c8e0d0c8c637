import RegistryFleet.Proofs.Backend.Memory
import RegistryFleet.Proofs.Reconcile.Ownership
import RegistryFleet.Reconcile.World

/-!
# Proofs/Reconcile/InMemory — worlds all of whose backends are in memory

Two divisions of such a world. In the first phase of a run a unit owns a whole backend, so that an
action of its is the run of its calls against that backend. In the second phase a unit owns one
project of a backend, and what it sees of the files.

* `World.serve_eq` — a call changes the backend that it is made to, and nothing else.
* `World.secure_acting` — an action of a unit that owns a backend.
-/

namespace RegistryFleet

theorem getElem?_numbered {α : Type} (xs : List α) (i : Nat) :
    (numbered xs)[i]? = xs[i]?.map fun x => (i, x) := by
  rw [numbered, List.zip, List.getElem?_zipWith]
  by_cases h : i < xs.length
  · simp [h]
  · simp [Nat.le_of_not_lt h]

/-- What comes of an effect: an effect that fails leaves the files as they are. -/
def Effect.applied (directory : Option CredentialDirectory) (e : Effect) (files : Files) :
    Except Error Unit × Files :=
  match e.settle directory files with
  | .ok files => (.ok (), files)
  | .error err => (.error err, files)

theorem Effect.applied_of_ok {directory : Option CredentialDirectory} {e : Effect}
    {files files' : Files} (h : e.settle directory files = .ok files') :
    e.applied directory files = (.ok (), files') := by
  rw [applied, h]

theorem Effect.applied_of_error {directory : Option CredentialDirectory} {e : Effect}
    {files : Files} {err : Error} (h : e.settle directory files = .error err) :
    e.applied directory files = (.error err, files) := by
  rw [applied, h]

/-- An effect that has a place to be carried out does not end a unit. -/
theorem Effect.isFatal_of_applied {d : CredentialDirectory} {e : Effect} {files : Files}
    {err : Error} (h : (e.applied (some d) files).1 = .error err) : err.isFatal = false := by
  unfold applied at h
  split at h
  · cases h
  · next err' he =>
    obtain rfl := Except.error.inj h
    cases e with
    | none => cases he
    | persist key endpoint credentials =>
      simp only [settle, Option.elim_some, CredentialDirectory.persist] at he
      split at he
      · cases he
      · exact Except.error.inj he ▸ rfl
    | remove key =>
      simp only [settle, Option.elim_some, CredentialDirectory.remove] at he
      split at he
      · cases he
      · exact Except.error.inj he ▸ rfl
      · exact Except.error.inj he ▸ rfl

theorem RunSettings.concurrent_pos {settings : RunSettings} (h : settings.check = .ok ()) :
    0 < settings.concurrent := by
  unfold check at h
  split at h
  · cases h
  · omega

namespace World

variable {w : World} {i : Nat} {m : Memory} {α : Type}

/-- The backend in memory of that number. -/
def memory? (i : Nat) (w : World) : Option Memory :=
  match w.backends[i]? with
  | some (.memory m) => some m
  | _ => none

/-- **All backends are in memory**, and set up like these. -/
def InMemory (setups : List Memory) (w : World) : Prop :=
  ∃ ms : List Memory, w.backends = ms.map .memory ∧ ms.map Memory.setup = setups.map Memory.setup

/-- A world of backends in memory, without files. -/
def ofMemories (ms : List Memory) : World := ⟨ms.map .memory, .absent, .empty⟩

theorem memory?_of_backends {ms : List Memory} (h : w.backends = ms.map .memory) (i : Nat) :
    w.memory? i = ms[i]? := by
  unfold memory?
  rw [h, List.getElem?_map]
  cases ms[i]? <;> rfl

/-- What is known of backends in memory is what they were set up with. -/
theorem profiles_of_setups {ms setups : List Memory} (hw : w.backends = ms.map .memory)
    (h : setups.map Memory.setup = ms.map Memory.setup) :
    w.backends.map Backend.profile = setups.map Memory.profile := by
  have hprofiles := congrArg (List.map Memory.profile) h
  rw [List.map_map, List.map_map] at hprofiles
  rw [hw, List.map_map]
  exact hprofiles.symm

theorem backends_of_memory? (h : w.memory? i = some m) : w.backends[i]? = some (.memory m) := by
  unfold memory? at h
  split at h
  · next m' hm => rw [hm, Option.some.inj h]
  · cases h

/-- **A call to a backend in memory** changes that backend, and nothing else. -/
theorem serve_eq (h : w.memory? i = some m) (c : Call) :
    serve i c w
      = ((Memory.serve c m).1,
          { w with backends := w.backends.set i (.memory (Memory.serve c m).2) }) := by
  unfold serve
  rw [backends_of_memory? h]
  rfl

/-- A call that leaves its backend as it is leaves the world as it is. -/
theorem serve_of_unchanged (h : w.memory? i = some m) {c : Call} (hm : (Memory.serve c m).2 = m) :
    serve i c w = ((Memory.serve c m).1, w) := by
  obtain ⟨hlt, hget⟩ := List.getElem?_eq_some_iff.1 (backends_of_memory? h)
  rw [serve_eq h, hm, ← hget, List.set_getElem_self]

theorem memory?_serve (h : w.memory? i = some m) (c : Call) (j : Nat) :
    (serve i c w).2.memory? j = if j = i then some (Memory.serve c m).2 else w.memory? j := by
  have hlt : i < w.backends.length :=
    (List.getElem?_eq_some_iff.1 (backends_of_memory? h)).1
  rw [serve_eq h]
  by_cases hj : j = i
  · simp only [memory?, hj, List.getElem?_set_self hlt, if_true]
  · simp only [memory?, hj, List.getElem?_set_ne (Ne.symm hj), if_false]

theorem files_serve (h : w.memory? i = some m) (c : Call) :
    (serve i c w).2.files = w.files := by
  rw [serve_eq h]

/-- No call changes what a backend was set up with. -/
theorem InMemory.serve {setups : List Memory} (hw : w.InMemory setups)
    (h : w.memory? i = some m) (c : Call) : (serve i c w).2.InMemory setups := by
  obtain ⟨ms, hms, hsetups⟩ := hw
  rw [serve_eq h]
  rw [memory?_of_backends hms] at h
  obtain ⟨hlt, rfl⟩ := List.getElem?_eq_some_iff.1 h
  refine ⟨ms.set i (Memory.serve c ms[i]).2, ?_, ?_⟩
  · simp only [hms, List.map_set]
  · rw [List.map_set, Memory.setup_serve, ← List.map_set, List.set_getElem_self, hsetups]

/-- An effect changes files, and nothing else. -/
theorem settle_eq (directory : Option CredentialDirectory) (e : Effect) (w : World) :
    settle directory e w
      = ((e.applied directory w.files).1, { w with files := (e.applied directory w.files).2 }) := by
  unfold settle Effect.applied
  cases e.settle directory w.files <;> rfl

/-! ## The two phases of a run -/

section

variable (w : World) (directory : Option CredentialDirectory) (settings : RunSettings)
  (cancel : Option Nat) (projects : List ProjectSpec)

/-- The first phase of a run. -/
def projectPhase : Schedule World UnitResult :=
  Schedule.phase (w.machine directory) ⟨settings.deadline, cancel⟩ settings.concurrent 0
    (projectJobs (w.backends.map Backend.profile) projects settings.dry) w

/-- The second phase of a run. -/
def memberPhase : Schedule World UnitResult :=
  Schedule.phase (w.machine directory) ⟨settings.deadline, cancel⟩ settings.concurrent
    (w.projectPhase directory settings cancel projects).now
    (memberJobs (w.backends.map Backend.profile) projects settings.dry)
    (w.projectPhase directory settings cancel projects).world

/-- **A run is its two phases.** -/
theorem reconcile_eq : w.reconcile directory settings cancel projects
    = (⟨settings.dry,
        UnitResult.sortByLabel (w.projectPhase directory settings cancel projects).values
          ++ UnitResult.sortByLabel (w.memberPhase directory settings cancel projects).values⟩,
      (w.memberPhase directory settings cancel projects).world) := rfl

/-- So many steps of the first phase. -/
def projectPhaseFor (steps : Nat) : Schedule World UnitResult :=
  Schedule.phaseFor (w.machine directory) ⟨settings.deadline, cancel⟩ settings.concurrent 0
    (projectJobs (w.backends.map Backend.profile) projects settings.dry) w steps

/-- So many steps of the second phase after so many of the first. -/
def memberPhaseFor (steps : Nat) : Schedule World UnitResult :=
  Schedule.phaseFor (w.machine directory) ⟨settings.deadline, cancel⟩ settings.concurrent
    (w.projectPhaseFor directory settings cancel projects steps).now
    (memberJobs (w.backends.map Backend.profile) projects settings.dry)
    (w.projectPhaseFor directory settings cancel projects steps).world steps

/-- Steps after which no unit is in flight are the whole phases. -/
theorem phases_eq_phasesFor (steps : Nat)
    (h₁ : (w.projectPhaseFor directory settings cancel projects steps).flights = [])
    (h₂ : (w.memberPhaseFor directory settings cancel projects steps).flights = []) :
    w.projectPhase directory settings cancel projects
        = w.projectPhaseFor directory settings cancel projects steps
      ∧ w.memberPhase directory settings cancel projects
        = w.memberPhaseFor directory settings cancel projects steps := by
  have hfirst : w.projectPhase directory settings cancel projects
      = w.projectPhaseFor directory settings cancel projects steps :=
    Schedule.phase_eq_phaseFor steps h₁
  refine ⟨hfirst, ?_⟩
  rw [memberPhase, hfirst]
  exact Schedule.phase_eq_phaseFor steps h₂

end

/-! ## Units that own a backend -/

/-- **Every unit owns a backend**, and none changes the files. -/
def byBackend (machine : Machine World) (backendOf : Nat → Nat) (setups : List Memory)
    (files : Files) : Division World (Option Memory) where
  machine := machine
  backendOf := backendOf
  units := setups.length
  sound w := w.InMemory setups ∧ w.files = files
  view i w := w.memory? i

variable {machine : Machine World} {backendOf : Nat → Nat} {setups : List Memory} {u : Nat}
  {calm : Prop} {directory : Option CredentialDirectory} {files : Files}

/-- What a unit's own backend answers. -/
theorem acts_serve (hmachine : machine.serve = serve) (hu : backendOf u = u) {c : Call}
    {Q : c.Answer → Option Memory → Prop}
    (hQ : Q (Memory.serve c m).1 (some (Memory.serve c m).2)) :
    (byBackend machine backendOf setups files).Acts u (machine.serve (backendOf u) c) Q
      (some m) := by
  intro w hsound hview
  rw [hmachine, hu]
  refine ⟨⟨⟨hsound.1.serve hview c, (files_serve hview c).trans hsound.2⟩, fun v _ hv => ?_⟩, ?_⟩
  · exact (memory?_serve hview c v).trans (if_neg hv)
  · have hown : (serve u c w).2.memory? u = some (Memory.serve c m).2 :=
      (memory?_serve hview c u).trans (if_pos rfl)
    change Q _ ((serve u c w).2.memory? u)
    rw [hown, serve_eq hview]
    exact hQ

/-- **An action of a unit that owns a backend** is the run of its calls against the backend. -/
theorem secure_acting (hmachine : machine.serve = serve) (hu : backendOf u = u)
    {Q : α → Option Memory → Prop} : ∀ {t : Calls α} {m : Memory},
      Q (t.run Memory.serve m).1 (some (t.run Memory.serve m).2) →
        (byBackend machine backendOf setups files).Secure u calm Q (Work.acting t) (some m)
  | .done _, _, h => h
  | .ask _ _, _, h => acts_serve hmachine hu (secure_acting hmachine hu h)

/-- No effect is called for. -/
theorem acts_settle_none (hsettle : machine.settle = settle directory)
    {Q : Except Error Unit → Option Memory → Prop} {v : Option Memory} (hQ : Q (.ok ()) v) :
    (byBackend machine backendOf setups files).Acts u (machine.settle .none) Q v := by
  rintro w hsound rfl
  rw [hsettle]
  exact ⟨⟨hsound, fun _ _ _ => rfl⟩, hQ⟩

/-! ## Units that own a project -/

/-- The project of that name on the backend of that number. -/
def holding? (place : Nat × String) (w : World) : Option Holding :=
  (w.memory? place.1).bind fun m => m.projects.get? place.2

theorem holding?_of_backends {ms : List Memory} (h : w.backends = ms.map .memory)
    (hm : ms[i]? = some m) (name : String) :
    w.holding? (i, name) = m.projects.get? name := by
  rw [holding?, memory?_of_backends h, hm, Option.bind_some]

/-- A call about one project of a backend leaves all other projects of the world alone. -/
theorem holding?_serve (h : w.memory? i = some m) {c : Call} {name : String}
    (hc : ∀ q, c.changes = some q → q = name) {place : Nat × String} (hplace : place ≠ (i, name)) :
    (serve i c w).2.holding? place = w.holding? place := by
  obtain ⟨j, q⟩ := place
  unfold holding?
  rw [memory?_serve h]
  by_cases hj : j = i
  · have hq : q ≠ name := fun hq => hplace (Prod.ext hj hq)
    simp only [hj, if_true, h, Option.bind_some]
    exact (Memory.within_serve c m name hc).others q hq
  · simp only [hj, if_false]

/-- **What units see of the files**, each at its own place, and what is true of them throughout. -/
structure Shelves (F : Type) where
  tidy : Files → Prop
  shelf : Nat × String → Files → F

/-- Units that see nothing of the files. -/
def Shelves.blank : Shelves Unit := ⟨fun _ => True, fun _ _ => ()⟩

variable {F : Type} {sh : Shelves F} {places : List (Nat × String)} {base : World}

/-- **Every unit owns a project** and what it sees of the files. -/
def byProject (machine : Machine World) (backendOf : Nat → Nat) (setups : List Memory)
    (places : List (Nat × String)) (base : World) (sh : Shelves F) :
    Division World (Option Holding × F) where
  machine := machine
  backendOf := backendOf
  units := places.length
  sound w := w.InMemory setups ∧ sh.tidy w.files
    ∧ ∀ place, place ∉ places → w.holding? place = base.holding? place
  view u w :=
    let place := (places[u]?).getD (0, "")
    (w.holding? place, sh.shelf place w.files)

/-- Of an effect: what it makes of the files that its unit sees, and that no other unit sees it. -/
def Shelves.Settles (sh : Shelves F) (directory : Option CredentialDirectory)
    (places : List (Nat × String)) (place : Nat × String) (e : Effect)
    (R : Except Error Unit → F → F → Prop) : Prop :=
  ∀ files, sh.tidy files →
    sh.tidy (e.applied directory files).2
      ∧ (∀ q ∈ places, q ≠ place → sh.shelf q (e.applied directory files).2 = sh.shelf q files)
      ∧ R (e.applied directory files).1 (sh.shelf place files)
          (sh.shelf place (e.applied directory files).2)

/-- Units of different numbers own different places. -/
theorem getElem_places_ne (hnodup : places.Nodup) {place : Nat × String}
    (hplace : places[u]? = some place) {v : Nat} (hv : v < places.length) (hne : v ≠ u) :
    places[v] ≠ place := fun he => hne <| by
  refine (List.getElem?_inj hv hnodup).1 ?_
  rw [hplace, List.getElem?_eq_getElem hv, he]

theorem Shelves.Settles.mono {place : Nat × String} {e : Effect}
    {R R' : Except Error Unit → F → F → Prop} (h : sh.Settles directory places place e R)
    (hR : ∀ out f f', R out f f' → R' out f f') : sh.Settles directory places place e R' :=
  fun files htidy => ⟨(h files htidy).1, (h files htidy).2.1, hR _ _ _ (h files htidy).2.2⟩

/-- What the backend of a unit answers about its project. -/
theorem acts_call (hserve : machine.serve = serve) {i : Nat} {name : String} {m₀ : Memory}
    (hplace : places[u]? = some (i, name)) (hbackend : backendOf u = i)
    (hm₀ : setups[i]? = some m₀) (hnodup : places.Nodup) {c : Call}
    (hc : ∀ q, c.changes = some q → q = name) {Q : c.Answer → Option Holding × F → Prop}
    {o : Option Holding} {f : F}
    (hQ : ∀ m : Memory, m.setup = m₀.setup → m.projects.get? name = o →
      Q (Memory.serve c m).1 ((Memory.serve c m).2.projects.get? name, f)) :
    (byProject machine backendOf setups places base sh).Acts u
      (machine.serve (backendOf u) c) Q (o, f) := by
  intro w ⟨hsound, htidy, hothers⟩ hview
  obtain ⟨ms, hms, hsetups⟩ := id hsound
  simp only [byProject, hplace, Option.getD_some] at hview
  obtain ⟨ho, hf⟩ := Prod.mk.inj hview
  obtain ⟨m, hm, hsetup⟩ := Memory.getElem?_of_setups hsetups.symm hm₀
  have hmem : w.memory? i = some m := (memory?_of_backends hms i).trans hm
  have hown : m.projects.get? name = o := by
    rw [← ho, holding?, hmem, Option.bind_some]
  rw [hserve, hbackend]
  refine ⟨⟨⟨hsound.serve hmem c, ?_, fun place hnot => ?_⟩, fun v hv hne => ?_⟩, ?_⟩
  · rw [files_serve hmem]
    exact htidy
  · have hother : place ≠ (i, name) := fun he => hnot (he ▸ List.mem_of_getElem? hplace)
    rw [holding?_serve hmem hc hother]
    exact hothers place hnot
  · have hlt : v < places.length := hv
    have hother := getElem_places_ne hnodup hplace hlt hne
    simp only [byProject, List.getElem?_eq_getElem hlt, Option.getD_some]
    rw [holding?_serve hmem hc hother, files_serve hmem]
  · simp only [byProject, hplace, Option.getD_some]
    rw [files_serve hmem, hf, holding?, memory?_serve hmem, if_pos rfl, Option.bind_some,
      serve_eq hmem]
    exact hQ m hsetup.symm hown

/-- What an effect makes of what its unit sees. -/
theorem acts_settle (hsettle : machine.settle = settle directory) {place : Nat × String}
    (hplace : places[u]? = some place) (hnodup : places.Nodup) {e : Effect}
    {R : Except Error Unit → F → F → Prop} (he : sh.Settles directory places place e R)
    {Q : Except Error Unit → Option Holding × F → Prop} {o : Option Holding} {f : F}
    (hQ : ∀ out f', R out f f' → Q out (o, f')) :
    (byProject machine backendOf setups places base sh).Acts u (machine.settle e) Q (o, f) := by
  intro w ⟨hsound, htidy, hothers⟩ hview
  simp only [byProject, hplace, Option.getD_some] at hview
  obtain ⟨ho, hf⟩ := Prod.mk.inj hview
  obtain ⟨htidy', hshelves, hR⟩ := he w.files htidy
  rw [hsettle, settle_eq]
  refine ⟨⟨⟨hsound, htidy', hothers⟩, fun v hv hne => ?_⟩, ?_⟩
  · have hlt : v < places.length := hv
    have hother := getElem_places_ne hnodup hplace hlt hne
    simp only [byProject, List.getElem?_eq_getElem hlt, Option.getD_some]
    rw [hshelves _ (List.getElem_mem hlt) hother]
    rfl
  · simp only [byProject, hplace, Option.getD_some]
    rw [hf] at hR
    have := hQ _ _ hR
    rw [← ho] at this
    exact this

end World

end RegistryFleet
