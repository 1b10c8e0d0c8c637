import RegistryFleet.Backend.Deletion
import RegistryFleet.Backend.Memory
import RegistryFleet.Proofs.Keyed
import Mathlib.Data.List.Forall2

/-!
# Proofs/Backend/Memory — what a call changes of a backend in memory

* `Memory.Within` — a change of one project: all others, and what the backend was set up with, stay.
* `Memory.within_serve` — every call changes one project at most.
* `Memory.isRecoverable_of_serve` — no failure of a backend in memory ends a unit.
* `Memory.run_delete` — what a deletion leaves of a project.
-/

namespace RegistryFleet

namespace Calls

variable {σ α β : Type}

theorem run_one (server : Server σ) (c : Call) (s : σ) : (one c).run server s = server c s := rfl

/-- A sequence that a failure ends. -/
theorem run_andThen (server : Server σ) (t : Calls (Except Error α))
    (f : α → Calls (Except Error β)) (s : σ) :
    (t.andThen f).run server s
      = match (t.run server s).1 with
        | .ok a => (f a).run server (t.run server s).2
        | .error e => (.error e, (t.run server s).2) := by
  unfold andThen
  rw [run_bind]
  cases (t.run server s).1 <;> rfl

end Calls

namespace Error

theorem isFatal_of_isRecoverable {e : Error} (h : e.isRecoverable = true) : e.isFatal = false := by
  cases e <;> first | rfl | cases h

theorem isCapabilityGap_of_isRecoverable {e : Error} (h : e.isRecoverable = true) :
    e.isCapabilityGap = false := by
  cases e <;> first | rfl | cases h

end Error

namespace Memory

/-! ## What stays -/

/-- **What a backend was set up with**: all that no call changes. -/
def setup (m : Memory) : Memory := { m with projects := .empty, log := [], robots := 0 }

theorem profile_of_setup {m m' : Memory} (h : m'.setup = m.setup) : m'.profile = m.profile := by
  have : m'.setup.profile = m.setup.profile := by rw [h]
  exact this

theorem failing_of_setup {m m' : Memory} (h : m'.setup = m.setup) : m'.failing = m.failing := by
  have : m'.setup.failing = m.setup.failing := by rw [h]
  exact this

theorem registry_of_setup {m m' : Memory} (h : m'.setup = m.setup) : m'.registry = m.registry :=
  congrArg Profile.registry (profile_of_setup h)

/-- What a backend was set up like, by its number. -/
theorem getElem?_of_setups {ms ms' : List Memory} (h : ms'.map setup = ms.map setup) {i : Nat}
    {m' : Memory} (hm' : ms'[i]? = some m') : ∃ m, ms[i]? = some m ∧ m'.setup = m.setup := by
  have hi : (ms'.map setup)[i]? = (ms.map setup)[i]? := by rw [h]
  rw [List.getElem?_map, List.getElem?_map, hm'] at hi
  obtain ⟨m, hm, hsetup⟩ := Option.map_eq_some_iff.1 hi.symm
  exact ⟨m, hm, hsetup.symm⟩

theorem setup_of_map {ms ms' : List Memory} (h : ms'.map setup = ms.map setup) {i : Nat}
    {m m' : Memory} (hm : ms[i]? = some m) (hm' : ms'[i]? = some m') : m'.setup = m.setup := by
  have hi : (ms'.map setup)[i]? = (ms.map setup)[i]? := by rw [h]
  simpa [hm, hm'] using hi

/-- Two steps over several backends, taken together backend by backend. -/
theorem forall₂_of_setups {ms ms₁ ms₂ : List Memory} (h₁ : ms₁.map setup = ms.map setup)
    (h₂ : ms₂.map setup = ms₁.map setup) {R : Memory → Memory → Prop}
    (hR : ∀ (i : Nat) (m m₁ m₂ : Memory), ms[i]? = some m → ms₁[i]? = some m₁ →
      ms₂[i]? = some m₂ → m₁.setup = m.setup → m₂.setup = m₁.setup → R m m₂) :
    List.Forall₂ R ms ms₂ := by
  have hlength₁ : ms₁.length = ms.length := by simpa using congrArg List.length h₁
  have hlength₂ : ms₂.length = ms₁.length := by simpa using congrArg List.length h₂
  refine List.forall₂_iff_get.2 ⟨by omega, fun i hi hi₂ => ?_⟩
  have hm := List.getElem?_eq_getElem hi
  have hm₁ := List.getElem?_eq_getElem (show i < ms₁.length by omega)
  have hm₂ := List.getElem?_eq_getElem hi₂
  exact hR i _ _ _ hm hm₁ hm₂ (setup_of_map h₁ hm hm₁) (setup_of_map h₂ hm₁ hm₂)

/-- **At most one project is changed.** -/
structure Within (project : String) (before after : Memory) : Prop where
  setup : after.setup = before.setup
  others : ∀ q, q ≠ project → after.projects.get? q = before.projects.get? q

namespace Within

variable {project : String} {m m' m'' : Memory}

theorem refl (project : String) (m : Memory) : Within project m m := ⟨rfl, fun _ _ => rfl⟩

theorem trans (h : Within project m m') (h' : Within project m' m'') : Within project m m'' :=
  ⟨h'.setup.trans h.setup, fun q hq => (h'.others q hq).trans (h.others q hq)⟩

theorem insert (m : Memory) (project : String) (h : Holding) (entry : String) :
    Within project m (m.record (m.projects.insert project h) entry) :=
  ⟨rfl, fun _ hq => Keyed.get?_insert_of_ne hq⟩

theorem erase (m : Memory) (project : String) (entry : String) :
    Within project m (m.record (m.projects.erase project) entry) :=
  ⟨rfl, fun _ hq => Keyed.get?_erase_of_ne hq⟩

end Within

end Memory

/-- The project that a call may change. -/
def Call.changes : Call → Option String
  | .deleteRepository r => some r.project
  | .removeProject p | .assign p _ | .unassign p _ => some p.name
  | .createProject name => some name
  | _ => none

namespace Memory

variable {m : Memory} {h : Holding}

/-! ## What a call answers, and what it changes -/

/-- The failure of a call about a failing member. -/
def rejection (member : Member) : Error :=
  .recoverable ("backend rejected member '" ++ member.name ++ "'")

theorem serve_deleteRepository (r : Repository) (m : Memory) :
    serve (.deleteRepository r) m
      = match m.projects.get? r.project with
        | none => (.error (noProject r.project), m)
        | some h =>
          if h.repositories.contains r.name then
            (.ok (), m.record
              (m.projects.insert r.project
                { h with repositories := h.repositories.filter (· != r.name) })
              ("delete_repository " ++ r.name))
          else (.error (.notFound "repository" r.name), m) := by
  simp only [serve, deleteRepository, holding]
  cases m.projects.get? r.project with
  | none => rfl
  | some h =>
    change m.commitUnit (ite _ _ _) = ite _ _ _
    split <;> rfl

theorem serve_removeProject (p : Project) (m : Memory) :
    serve (.removeProject p) m
      = if m.projects.contains p.name then
          (.ok (), m.record (m.projects.erase p.name) ("remove_project " ++ p.name))
        else (.error (noProject p.name), m) := by
  simp only [serve, removeProject]
  split <;> rfl

theorem serve_createProject (name : String) (m : Memory) :
    serve (.createProject name) m
      = if m.projects.contains name then
          (.error (.recoverable ("project '" ++ name ++ "' already exists")), m)
        else
          (.ok (.named name), m.record (m.projects.insert name .empty)
            ("create_project " ++ name)) := by
  simp only [serve, createProject]
  split <;> rfl

/-- The backend after a binding. -/
def bound (m : Memory) (p : Project) (member : Member) (h : Holding) : Memory :=
  { m.record (m.projects.insert p.name { h with members := h.members ++ [member] })
      (bindingEntry "assign_member" p member) with
    robots := if member.type = .robot then m.robots + 1 else m.robots }

theorem serve_assign (p : Project) (member : Member) (m : Memory) :
    serve (.assign p member) m
      = if m.failing.contains member.name then (.error (rejection member), m)
        else
          match m.projects.get? p.name with
          | none => (.error (noProject p.name), m)
          | some h =>
            (.ok (if member.type = .robot then some (m.robotCredentials p member) else none),
              m.bound p member h) := by
  simp only [serve, assign, checkMember, holding]
  split
  · rfl
  · cases m.projects.get? p.name with
    | none => rfl
    | some h => cases ht : member.type <;> simp [ht, bound] <;> rfl

theorem serve_unassign (p : Project) (member : Member) (m : Memory) :
    serve (.unassign p member) m
      = if m.failing.contains member.name then (.error (rejection member), m)
        else
          match m.projects.get? p.name with
          | none => (.error (noProject p.name), m)
          | some h =>
            if h.members.contains member then
              (.ok (), m.record
                (m.projects.insert p.name { h with members := h.members.erase member })
                (bindingEntry "unassign_member" p member))
            else (.error (.notFound "member" member.name), m) := by
  simp only [serve, unassign, checkMember, holding]
  split
  · rfl
  · cases m.projects.get? p.name with
    | none => rfl
    | some h =>
      change m.commitUnit (ite _ _ _) = ite _ _ _
      split <;> rfl

theorem serve_assign_of_failing {p : Project} {member : Member}
    (h : m.failing.contains member.name = true) :
    serve (.assign p member) m = (.error (rejection member), m) := by
  rw [serve_assign, if_pos h]

theorem serve_unassign_of_failing {p : Project} {member : Member}
    (h : m.failing.contains member.name = true) :
    serve (.unassign p member) m = (.error (rejection member), m) := by
  rw [serve_unassign, if_pos h]

/-- **Every call changes one project at most**, and the set-up never. -/
theorem within_serve (c : Call) (m : Memory) (name : String)
    (h : ∀ q, c.changes = some q → q = name) : Within name m (serve c m).2 := by
  cases c with
  | deleteRepository r =>
    obtain rfl := h _ rfl
    rw [serve_deleteRepository]
    split
    · exact .refl _ m
    · split
      · exact .insert m _ _ _
      · exact .refl _ m
  | removeProject p =>
    obtain rfl := h _ rfl
    rw [serve_removeProject]
    split
    · exact .erase m _ _
    · exact .refl _ m
  | createProject name =>
    obtain rfl := h _ rfl
    rw [serve_createProject]
    split
    · exact .refl _ m
    · exact .insert m _ _ _
  | assign p member =>
    obtain rfl := h _ rfl
    rw [serve_assign]
    split
    · exact .refl _ m
    · split
      · exact .refl _ m
      · exact ⟨rfl, fun _ hq => Keyed.get?_insert_of_ne hq⟩
  | unassign p member =>
    obtain rfl := h _ rfl
    rw [serve_unassign]
    split
    · exact .refl _ m
    · split
      · exact .refl _ m
      · split
        · exact .insert m _ _ _
        · exact .refl _ m
  | _ => exact .refl _ m

theorem setup_serve (c : Call) (m : Memory) : (serve c m).2.setup = m.setup := by
  cases hc : c.changes with
  | none => exact (within_serve c m "" fun q hq => nomatch hc.symm.trans hq).setup
  | some name =>
    exact (within_serve c m name fun q hq => (Option.some.inj (hc.symm.trans hq)).symm).setup

/-- **No failure of a backend in memory ends a unit**, and none stands for a missing capability. -/
theorem isRecoverable_of_serve {c : Call} {m : Memory} {e : Error}
    (h : (serve c m).1 = .error e) : e.isRecoverable = true := by
  cases c with
  | listProjects => simp [serve] at h
  | findProject name =>
    simp only [serve, find] at h
    split at h
    · simp at h
    · exact (Except.error.inj h) ▸ rfl
  | listRepositories p =>
    simp only [serve, repositories, holding] at h
    cases hp : m.projects.get? p.name with
    | none => rw [hp] at h; exact (Except.error.inj h) ▸ rfl
    | some _ => rw [hp] at h; cases h
  | deleteRepository r =>
    rw [serve_deleteRepository] at h
    split at h
    · exact (Except.error.inj h) ▸ rfl
    · split at h
      · cases h
      · exact (Except.error.inj h) ▸ rfl
  | removeProject p =>
    rw [serve_removeProject] at h
    split at h
    · cases h
    · exact (Except.error.inj h) ▸ rfl
  | createProject name =>
    rw [serve_createProject] at h
    split at h
    · exact (Except.error.inj h) ▸ rfl
    · cases h
  | members p =>
    simp only [serve, holding] at h
    cases hp : m.projects.get? p.name with
    | none => rw [hp] at h; exact (Except.error.inj h) ▸ rfl
    | some _ => rw [hp] at h; cases h
  | assign p member =>
    rw [serve_assign] at h
    split at h
    · exact (Except.error.inj h) ▸ rfl
    · split at h
      · exact (Except.error.inj h) ▸ rfl
      · cases h
  | unassign p member =>
    rw [serve_unassign] at h
    split at h
    · exact (Except.error.inj h) ▸ rfl
    · split at h
      · exact (Except.error.inj h) ▸ rfl
      · split at h
        · cases h
        · exact (Except.error.inj h) ▸ rfl

/-- A look-up finds the projects that are there. -/
theorem serve_findProject (name : String) (m : Memory) :
    serve (.findProject name) m
      = (match m.projects.get? name with
          | some _ => .ok (.named name)
          | none => .error (noProject name), m) := by
  simp only [serve, find, listing, List.find?_map]
  cases hm : m.projects.get? name with
  | some h =>
    have hmem : name ∈ m.projects.keys := Keyed.mem_keys.2 ⟨h, hm⟩
    obtain ⟨k, hk⟩ := Option.isSome_iff_exists.1
      (List.find?_isSome.2 ⟨name, hmem, by simp [Project.named]⟩ :
        (m.projects.keys.find? ((fun p => p.name == name) ∘ Project.named)).isSome)
    have hname : k = name := by simpa [Project.named] using List.find?_some hk
    rw [hk, hname]
    rfl
  | none =>
    have hnone : m.projects.keys.find? ((fun p => p.name == name) ∘ Project.named) = none := by
      rw [List.find?_eq_none]
      intro k hk he
      obtain ⟨h, hh⟩ := Keyed.mem_keys.1 hk
      have hname : k = name := by simpa [Project.named] using he
      rw [hname, hm] at hh
      cases hh
    rw [hnone]
    rfl

theorem names_listing (m : Memory) : m.listing.map Project.name = m.projects.keys := by
  simp [listing, Function.comp_def, Project.named]

theorem serve_listRepositories {name : String} (hm : m.projects.get? name = some h) :
    serve (.listRepositories (.named name)) m
      = (.ok (h.repositories.map (Repository.mk name)), m) := by
  simp only [serve, repositories, holding, Project.named, hm]
  rfl

theorem serve_members {name : String} (hm : m.projects.get? name = some h) :
    serve (.members (.named name)) m = (.ok h.members, m) := by
  simp only [serve, holding, Project.named, hm]
  rfl

/-! ## Deletion -/

/-- **Deleting repositories one by one** — a project whose repositories are deleted is still there,
and a deletion fails only at a repository that is not. -/
theorem run_deleteRepositories (name : String) : ∀ (repositories : List String) {m m' : Memory}
    {h : Holding} {r : Except Error Unit}, m.projects.get? name = some h →
      (deleteRepositories (repositories.map (Repository.mk name))).run serve m = (r, m') →
        Within name m m' ∧ (∃ h', m'.projects.get? name = some h')
          ∧ (∀ e, r = .error e → e.isRecoverable = true)
          ∧ (repositories.Nodup → repositories ⊆ h.repositories → r = .ok ())
  | [], m, m', h, r, hm, hrun => by
      obtain ⟨rfl, rfl⟩ := Prod.mk.inj hrun
      exact ⟨.refl name m, ⟨h, hm⟩, fun e he => (by cases he), fun _ _ => rfl⟩
  | s :: rest, m, m', h, r, hm, hrun => by
      rw [List.map_cons, deleteRepositories, Calls.run_andThen, Calls.run_one,
        serve_deleteRepository, hm] at hrun
      by_cases hs : h.repositories.contains s = true
      · simp only [hs, if_true] at hrun
        obtain ⟨hwithin, hthere, herror, hok⟩ := run_deleteRepositories name rest
          (Keyed.get?_insert_self _ _ _) hrun
        refine ⟨(Within.insert m name _ _).trans hwithin, hthere, herror, fun hnodup hsub => ?_⟩
        obtain ⟨hs', hnodup⟩ := List.nodup_cons.1 hnodup
        refine hok hnodup fun t ht => List.mem_filter.2 ⟨hsub (List.mem_cons_of_mem s ht), ?_⟩
        simpa using fun he : t = s => hs' (he ▸ ht)
      · simp only [hs] at hrun
        obtain ⟨rfl, rfl⟩ := Prod.mk.inj hrun
        refine ⟨.refl name m, ⟨h, hm⟩, fun e he => Except.error.inj he ▸ rfl, fun _ hsub => ?_⟩
        exact absurd (List.contains_iff_mem.2 (hsub List.mem_cons_self)) hs

/-- A removal of a project that is there. -/
theorem serve_removeProject_of_some {name : String} (hm : m.projects.get? name = some h) :
    serve (.removeProject (.named name)) m
      = (.ok (), m.record (m.projects.erase name) ("remove_project " ++ name)) := by
  rw [serve_removeProject]
  exact if_pos (Keyed.contains_iff.2 ⟨h, hm⟩)

/-- Are repositories in the way of a deletion? -/
def Refused (p : Profile) (h : Holding) : Prop :=
  h.repositories ≠ [] ∧ p.registry.options.forceDelete = false

instance (p : Profile) (h : Holding) : Decidable (Refused p h) := instDecidableAnd

/-- A refused deletion changes nothing. -/
theorem run_delete_of_refused {p : Profile} {name : String} (hm : m.projects.get? name = some h)
    (hr : Refused p h) :
    (p.delete (.named name)).run serve m = (.error (repositoriesPresent (.named name)), m) := by
  rw [Profile.delete, Calls.run_andThen, Calls.run_one, serve_listRepositories hm]
  have : (!h.repositories.isEmpty && !p.registry.options.forceDelete) = true := by
    simp [hr.1, hr.2]
  simp only [List.isEmpty_map, this, if_true]
  rfl

/-- **Deleting a project that is there**, where nothing is in the way. -/
theorem run_delete {p : Profile} {name : String} {r : Except Error Unit} {m' : Memory}
    (hm : m.projects.get? name = some h) (hr : ¬ Refused p h)
    (hrun : (p.delete (.named name)).run serve m = (r, m')) :
    Within name m m' ∧ (∀ e, r = .error e → e.isRecoverable = true)
      ∧ (r = .ok () → m'.projects.get? name = none)
      ∧ (h.repositories.Nodup → r = .ok ()) := by
  have hfree : (!h.repositories.isEmpty && !p.registry.options.forceDelete) = false := by
    simpa [Refused] using hr
  rw [Profile.delete, Calls.run_andThen, Calls.run_one, serve_listRepositories hm] at hrun
  simp only [List.isEmpty_map, hfree, Bool.false_eq_true, if_false] at hrun
  rw [Calls.run_andThen] at hrun
  obtain ⟨hwithin, ⟨h', hthere⟩, herror, hok⟩ :=
    run_deleteRepositories name h.repositories hm (Prod.eta _).symm
  split at hrun
  · next hdeleted =>
    rw [Calls.run_one, serve_removeProject_of_some hthere] at hrun
    obtain ⟨rfl, rfl⟩ := Prod.mk.inj hrun
    exact ⟨hwithin.trans (.erase _ name _), fun e he => (by cases he),
      fun _ => Keyed.get?_erase_self _ name, fun _ => rfl⟩
  · next e hdeleted =>
    obtain ⟨rfl, rfl⟩ := Prod.mk.inj hrun
    refine ⟨hwithin, fun e' he => herror e' (hdeleted.trans he), fun he => (by cases he),
      fun hnodup => ?_⟩
    rw [hok hnodup fun _ hs => hs] at hdeleted
    cases hdeleted

end Memory

end RegistryFleet
