import RegistryFleet.Proofs.Backend.Memory
import RegistryFleet.Proofs.Reconcile.Image
import RegistryFleet.Proofs.Reconcile.InMemory

/-!
# Proofs/Reconcile/Passwords — a run without the passwords of its registries

A backend in memory has a registry with a password, which no call goes by and no unit reads. To
take the passwords out of a world is therefore a map that takes its machine to the machine of the
world without them, and a run on the image of a world is the image of the run.

* `Memory.serve_withoutPassword` — a call does not go by the password.
* `World.takes_withoutPasswords` — neither does anything else that units work on.
* `World.reconcile_withoutPasswords`, `planFleet_withoutPasswords` — runs and plans without
  passwords.
-/

namespace RegistryFleet

/-! ## Passwords taken out -/

/-- The credentials with an empty password. -/
def Credentials.withoutPassword (c : Credentials) : Credentials := ⟨c.username, ""⟩

/-- The registry with an empty password. -/
def Registry.withoutPassword (r : Registry) : Registry :=
  { r with credentials := r.credentials.withoutPassword }

/-- The backend of the registry with an empty password. -/
def Memory.withoutPassword (m : Memory) : Memory :=
  { m with registry := m.registry.withoutPassword }

/-- The backend with an empty password, if it is in memory: a connection sends its password. -/
def Backend.withoutPassword : Backend → Backend
  | memory m => memory m.withoutPassword
  | remote c => remote c

/-- **The world with empty passwords** for all backends in memory. -/
def World.withoutPasswords (w : World) : World :=
  { w with backends := w.backends.map Backend.withoutPassword }

theorem numbered_map {α β : Type} (f : α → β) (xs : List α) :
    numbered (xs.map f) = (numbered xs).map fun x => (x.1, f x.2) := by
  rw [numbered, numbered, List.length_map, List.zip_map_right]
  rfl

/-! ## Calls -/

namespace Memory

/-- **No call goes by the password.** -/
theorem serve_withoutPassword (c : Call) (m : Memory) :
    serve c m.withoutPassword = ((serve c m).1, (serve c m).2.withoutPassword) := by
  have hprojects : m.withoutPassword.projects = m.projects := rfl
  have hfailing : m.withoutPassword.failing = m.failing := rfl
  cases c with
  | deleteRepository r =>
    rw [serve_deleteRepository, serve_deleteRepository, hprojects]
    cases m.projects.get? r.project with
    | none => rfl
    | some h => dsimp only; split <;> rfl
  | removeProject p =>
    rw [serve_removeProject, serve_removeProject, hprojects]
    split <;> rfl
  | createProject name =>
    rw [serve_createProject, serve_createProject, hprojects]
    split <;> rfl
  | assign p member =>
    rw [serve_assign, serve_assign, hprojects, hfailing]
    split
    · rfl
    · cases m.projects.get? p.name <;> rfl
  | unassign p member =>
    rw [serve_unassign, serve_unassign, hprojects, hfailing]
    split
    · rfl
    · cases m.projects.get? p.name with
      | none => rfl
      | some h => dsimp only; split <;> rfl
  | _ => rfl

end Memory

namespace World

theorem serve_withoutPasswords (i : Nat) (c : Call) (w : World) :
    serve i c w.withoutPasswords = ((serve i c w).1, (serve i c w).2.withoutPasswords) := by
  have hget : w.withoutPasswords.backends[i]? = (w.backends[i]?).map Backend.withoutPassword :=
    List.getElem?_map
  unfold serve
  rw [hget]
  cases w.backends[i]? with
  | none => rfl
  | some b =>
    cases b with
    | memory m =>
      simp only [Option.map_some, Backend.withoutPassword, Backend.serve,
        Memory.serve_withoutPassword, withoutPasswords, List.map_set]
    | remote c =>
      simp only [Option.map_some, Backend.withoutPassword, Backend.serve, withoutPasswords,
        List.map_set]

theorem settle_withoutPasswords (directory : Option CredentialDirectory) (e : Effect) (w : World) :
    settle directory e w.withoutPasswords
      = ((settle directory e w).1, (settle directory e w).2.withoutPasswords) := by
  rw [settle_eq, settle_eq]
  rfl

/-- **Nothing that units work on goes by a password.** -/
theorem takes_withoutPasswords (w : World) (directory : Option CredentialDirectory) :
    (w.machine directory).Takes withoutPasswords (w.withoutPasswords.machine directory) where
  serve := serve_withoutPasswords
  latency := by
    funext i
    simp only [machine, withoutPasswords, List.getElem?_map]
    rcases w.backends[i]? with _ | (m | c) <;> rfl
  settle := settle_withoutPasswords directory

/-! ## Runs -/

/-- No unit of a registry reads the password. -/
theorem projectJobs_withoutPasswords (w : World) (projects : List ProjectSpec) (dry : Bool) :
    projectJobs (w.withoutPasswords.backends.map Backend.profile) projects dry
      = projectJobs (w.backends.map Backend.profile) projects dry := by
  simp only [projectJobs, withoutPasswords, List.map_map, numbered_map]
  refine List.map_congr_left fun ⟨i, b⟩ _ => ?_
  cases b <;> rfl

/-- No unit of a project reads the password. -/
theorem memberJobs_withoutPasswords (w : World) (projects : List ProjectSpec) (dry : Bool) :
    memberJobs (w.withoutPasswords.backends.map Backend.profile) projects dry
      = memberJobs (w.backends.map Backend.profile) projects dry := by
  simp only [memberJobs, withoutPasswords, numbered_map, List.flatMap_map]
  congr 1
  funext ⟨i, b⟩
  cases b <;> rfl

/-- **A run does not go by the passwords** — its report and its files are the same without them, and
so are the backends it leaves, apart from their passwords. -/
theorem reconcile_withoutPasswords (w : World) (directory : Option CredentialDirectory)
    (settings : RunSettings) (cancel : Option Nat) (projects : List ProjectSpec) :
    w.withoutPasswords.reconcile directory settings cancel projects
      = ((w.reconcile directory settings cancel projects).1,
          (w.reconcile directory settings cancel projects).2.withoutPasswords) :=
  Fleet.reconcile_image (w.takes_withoutPasswords directory)
    (w.projectJobs_withoutPasswords projects settings.dry)
    (w.memberJobs_withoutPasswords projects settings.dry) cancel w

end World

/-! ## Plans -/

section

variable (settings : TopologySettings) (registries : List Registry)

theorem checkHubs_withoutPasswords :
    checkHubs (registries.map Registry.withoutPassword) = checkHubs registries := by
  have hhubs : hubs (registries.map Registry.withoutPassword)
      = (hubs registries).map Registry.withoutPassword := List.filter_map
  rw [checkHubs, checkHubs, hhubs, List.length_map, List.map_map]
  rfl

theorem planProject_withoutPasswords (here : Registry) (project : ProjectSpec) :
    planProject settings (registries.map Registry.withoutPassword) here.withoutPassword project
      = planProject settings registries here project := by
  have hpartners : partners (registries.map Registry.withoutPassword) here.withoutPassword project
      = (partners registries here project).map Registry.withoutPassword := List.filter_map
  rw [planProject, planProject, hpartners, List.mapM_map]
  rfl

/-- **A plan does not go by the passwords.** -/
theorem planFleet_withoutPasswords (projects : List ProjectSpec) :
    planFleet settings (registries.map Registry.withoutPassword) projects
      = planFleet settings registries projects := by
  have hregistry : ∀ here : Registry,
      planRegistry settings (registries.map Registry.withoutPassword) projects here.withoutPassword
        = planRegistry settings registries projects here := by
    intro here
    rw [planRegistry, planRegistry, checkHubs_withoutPasswords]
    simp only [planProject_withoutPasswords]
    rfl
  rw [planFleet, planFleet, List.mapM_map]
  simp only [Function.comp_def, hregistry]

end

end RegistryFleet
