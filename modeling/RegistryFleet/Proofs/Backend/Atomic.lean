import RegistryFleet.Proofs.Backend.Memory
import RegistryFleet.Reconcile.Action

/-!
# Proofs/Backend/Atomic — a change of a backend in memory is made whole or not at all

A backend that works in place changes its state before it knows whether the call succeeds:
repositories are struck from a list before it is seen whether there was one of the name, a project
is taken out before it is seen whether it was there. What has been changed by then stays changed, so
that a failure leaves the state as it was only because nothing was there to be changed.

* `Memory.serveInPlace` — the calls as they are carried out in place.
* `Memory.serve_eq_inPlace` — they answer the same and leave the same state.
* `Memory.changes_atomic` — a failed change leaves everything as it was; one that succeeds changes
  one project, adds one entry to the log, and counts a robot just if it binds one.
-/

namespace RegistryFleet

namespace Keyed

variable {α : Type} {m : Keyed α} {k : String}

/-- Binding a key to what it is bound to changes nothing. -/
theorem insert_eq_self {v : α} (h : m.get? k = some v) : m.insert k v = m := ext_get? fun j => by
  rw [get?_insert]
  split
  · next he => rw [he, h]
  · rfl

/-- Erasing a key that is not bound changes nothing. -/
theorem erase_eq_self (h : m.get? k = none) : m.erase k = m := ext_get? fun j => by
  rw [get?_erase]
  split
  · next he => rw [he, h]
  · rfl

end Keyed

namespace Memory

/-! ## Calls in place

Each returns the state that it has reached, also where it fails. -/

/-- The state with something else for a project. -/
def store (m : Memory) (project : String) (h : Holding) : Memory :=
  { m with projects := m.projects.insert project h }

/-- The state with an entry added to the log. -/
def note (m : Memory) (entry : String) : Memory := { m with log := m.log ++ [entry] }

/-- Repositories of the name are struck from the list; whether there was one is seen by its
length. -/
def deleteRepositoryInPlace (r : Repository) (m : Memory) : Except Error Unit × Memory :=
  match m.projects.get? r.project with
  | none => (.error (noProject r.project), m)
  | some h =>
    let kept := h.repositories.filter (· != r.name)
    let struck := m.store r.project { h with repositories := kept }
    if kept.length = h.repositories.length then (.error (.notFound "repository" r.name), struck)
    else (.ok (), struck.note ("delete_repository " ++ r.name))

/-- The project is taken out; whether it was there is seen by what has been taken out. -/
def removeProjectInPlace (p : Project) (m : Memory) : Except Error Unit × Memory :=
  let emptied := { m with projects := m.projects.erase p.name }
  match m.projects.get? p.name with
  | none => (.error (noProject p.name), emptied)
  | some _ => (.ok (), emptied.note ("remove_project " ++ p.name))

/-- The project is put in, unless there is one. -/
def createProjectInPlace (name : String) (m : Memory) : Except Error Project × Memory :=
  if m.projects.contains name then
    (.error (.recoverable ("project '" ++ name ++ "' already exists")), m)
  else (.ok (.named name), (m.store name .empty).note ("create_project " ++ name))

/-- The member is appended and the entry added; then robots are counted, and the secret of a new one
is made of the count. -/
def assignInPlace (p : Project) (member : Member) (m : Memory) :
    Except Error (Option Credentials) × Memory :=
  if m.failing.contains member.name then (.error (rejection member), m)
  else
    match m.projects.get? p.name with
    | none => (.error (noProject p.name), m)
    | some h =>
      let appended := (m.store p.name { h with members := h.members ++ [member] }).note
        (bindingEntry "assign_member" p member)
      if member.type = .robot then
        let counted := { appended with robots := appended.robots + 1 }
        (.ok (some ⟨"robot$" ++ p.name ++ "+" ++ member.name,
          "secret-" ++ toString counted.robots⟩), counted)
      else (.ok none, appended)

/-- The member is looked for, and taken out where it was found. -/
def unassignInPlace (p : Project) (member : Member) (m : Memory) : Except Error Unit × Memory :=
  if m.failing.contains member.name then (.error (rejection member), m)
  else
    match m.projects.get? p.name with
    | none => (.error (noProject p.name), m)
    | some h =>
      match h.members.idxOf? member with
      | none => (.error (.notFound "member" member.name), m)
      | some i =>
        (.ok (), (m.store p.name { h with members := h.members.eraseIdx i }).note
          (bindingEntry "unassign_member" p member))

/-- **The answer to a call in place**, and the state that it has reached. -/
def serveInPlace : Calls.Server Memory
  | .deleteRepository r, m => m.deleteRepositoryInPlace r
  | .removeProject p, m => m.removeProjectInPlace p
  | .createProject name, m => m.createProjectInPlace name
  | .assign p member, m => m.assignInPlace p member
  | .unassign p member, m => m.unassignInPlace p member
  | c, m => serve c m

variable {m : Memory}

theorem store_eq_self {project : String} {h : Holding} (hm : m.projects.get? project = some h) :
    m.store project h = m := by
  rw [store, Keyed.insert_eq_self hm]

/-- Nothing has been struck from a list just if the name is not on it. -/
theorem length_filter_ne_iff {names : List String} {name : String} :
    (names.filter (· != name)).length = names.length ↔ name ∉ names := by
  rw [List.length_filter_eq_length_iff]
  exact ⟨fun h hmem => bne_iff_ne.1 (h name hmem) rfl,
    fun h other hother => bne_iff_ne.2 fun he => h (he ▸ hother)⟩

theorem deleteRepositoryInPlace_eq (r : Repository) (m : Memory) :
    deleteRepositoryInPlace r m = serve (.deleteRepository r) m := by
  rw [serve_deleteRepository, deleteRepositoryInPlace]
  cases hm : m.projects.get? r.project with
  | none => rfl
  | some h =>
    by_cases hmem : r.name ∈ h.repositories
    · have hstruck := mt length_filter_ne_iff.1 (not_not.2 hmem)
      simp only [if_neg hstruck, if_pos (List.contains_iff_mem.2 hmem)]
      rfl
    · -- The list is as long as before, so it is the list from before.
      have hlength := length_filter_ne_iff.2 hmem
      have hsame : h.repositories.filter (· != r.name) = h.repositories :=
        List.filter_eq_self.2 (List.length_filter_eq_length_iff.1 hlength)
      simp only [hsame, store_eq_self hm, if_neg (mt List.contains_iff_mem.1 hmem), if_true]

theorem removeProjectInPlace_eq (p : Project) (m : Memory) :
    removeProjectInPlace p m = serve (.removeProject p) m := by
  rw [serve_removeProject, removeProjectInPlace, Keyed.contains]
  cases hm : m.projects.get? p.name with
  | none =>
    simp only [Option.isSome_none, Bool.false_eq_true, if_false]
    rw [Keyed.erase_eq_self hm]
  | some h => rfl

theorem assignInPlace_eq (p : Project) (member : Member) (m : Memory) :
    assignInPlace p member m = serve (.assign p member) m := by
  rw [serve_assign, assignInPlace]
  split
  · rfl
  · cases m.projects.get? p.name with
    | none => rfl
    | some h =>
      by_cases hrobot : member.type = .robot
      · simp only [hrobot, if_true, bound]
        rfl
      · simp only [hrobot, if_false, bound]
        rfl

theorem unassignInPlace_eq (p : Project) (member : Member) (m : Memory) :
    unassignInPlace p member m = serve (.unassign p member) m := by
  rw [serve_unassign, unassignInPlace]
  split
  · rfl
  · cases m.projects.get? p.name with
    | none => rfl
    | some h =>
      simp only [List.erase_eq_eraseIdx]
      cases hfound : h.members.idxOf? member with
      | none =>
        have habsent : h.members.contains member = false := by
          simpa using List.idxOf?_eq_none_iff.1 hfound
        simp only [habsent, Bool.false_eq_true, if_false]
      | some i =>
        have hmem : member ∈ h.members := List.isSome_idxOf?.1 (by rw [hfound]; rfl)
        simp only [List.contains_iff_mem.2 hmem, if_true]
        rfl

/-- **Calls in place answer the same and leave the same state**, a failed one what it began with. -/
theorem serve_eq_inPlace (c : Call) (m : Memory) : serve c m = serveInPlace c m := by
  cases c with
  | deleteRepository r => exact (deleteRepositoryInPlace_eq r m).symm
  | removeProject p => exact (removeProjectInPlace_eq p m).symm
  | createProject name => exact serve_createProject name m
  | assign p member => exact (assignInPlace_eq p member m).symm
  | unassign p member => exact (unassignInPlace_eq p member m).symm
  | _ => rfl

/-! ## Whole or not at all -/

/-- **One project has been changed** — no other has, the log has one more entry, and so many more
robots have been counted. -/
structure Recorded (project : String) (count : Nat) (before after : Memory) : Prop
    extends Within project before after where
  self : after.projects.get? project ≠ before.projects.get? project
  log : ∃ entry, after.log = before.log ++ [entry]
  robots : after.robots = before.robots + count

/-- **A change that is made whole or not at all** — a failure leaves everything as it was. -/
def Atomic {α : Type} (project : String) (count : Nat) (before : Memory) :
    Except Error α × Memory → Prop
  | (.ok _, after) => Recorded project count before after
  | (.error _, after) => after = before

end Memory

/-- How many robots a call creates where it succeeds. -/
def Call.robots : Call → Nat
  | .assign _ member => if member.type = .robot then 1 else 0
  | _ => 0

namespace Memory

variable {project : String} {count : Nat}

theorem recorded_insert {h : Holding} (hnew : m.projects.get? project ≠ some h) (entry : String) :
    Recorded project 0 m (m.record (m.projects.insert project h) entry) where
  toWithin := .insert m project h entry
  self := (Keyed.get?_insert_self m.projects project h).trans_ne hnew.symm
  log := ⟨entry, rfl⟩
  robots := rfl

theorem recorded_erase {h : Holding} (hm : m.projects.get? project = some h) (entry : String) :
    Recorded project 0 m (m.record (m.projects.erase project) entry) where
  toWithin := .erase m project entry
  self := (Keyed.get?_erase_self m.projects project).trans_ne (hm ▸ (Option.some_ne_none h).symm)
  log := ⟨entry, rfl⟩
  robots := rfl

/-- A binding changes its project, and counts a robot just if it binds one. -/
theorem recorded_bound {p : Project} {h : Holding} (hm : m.projects.get? p.name = some h)
    (member : Member) :
    Recorded p.name (Call.robots (.assign p member)) m (m.bound p member h) where
  setup := rfl
  others q hq := Keyed.get?_insert_of_ne hq
  self := by
    have hself : (m.bound p member h).projects.get? p.name
        = some { h with members := h.members ++ [member] } := Keyed.get?_insert_self _ _ _
    rw [hself, hm]
    exact fun he => by simpa using congrArg Holding.members (Option.some.inj he)
  log := ⟨_, rfl⟩
  robots := by
    rw [bound, Call.robots]
    split <;> rfl

theorem atomic_deleteRepository (r : Repository) (m : Memory) :
    Atomic r.project 0 m (serve (.deleteRepository r) m) := by
  rw [serve_deleteRepository]
  cases hm : m.projects.get? r.project with
  | none => rfl
  | some h =>
    by_cases hmem : h.repositories.contains r.name = true
    · simp only [hmem, if_true]
      refine recorded_insert (fun he => ?_) _
      have hstruck : h.repositories = h.repositories.filter (· != r.name) :=
        congrArg Holding.repositories (Option.some.inj (hm.symm.trans he))
      exact length_filter_ne_iff.1 (congrArg List.length hstruck).symm
        (List.contains_iff_mem.1 hmem)
    · simp only [hmem]
      rfl

theorem atomic_removeProject (p : Project) (m : Memory) :
    Atomic p.name 0 m (serve (.removeProject p) m) := by
  rw [serve_removeProject]
  split
  · next hthere =>
    obtain ⟨h, hm⟩ := Keyed.contains_iff.1 hthere
    exact recorded_erase hm _
  · rfl

theorem atomic_createProject (name : String) (m : Memory) :
    Atomic name 0 m (serve (.createProject name) m) := by
  rw [serve_createProject]
  split
  · rfl
  · next habsent => exact recorded_insert (fun he => habsent (Keyed.contains_iff.2 ⟨_, he⟩)) _

theorem atomic_assign (p : Project) (member : Member) (m : Memory) :
    Atomic p.name (Call.robots (.assign p member)) m (serve (.assign p member) m) := by
  rw [serve_assign]
  split
  · rfl
  · cases hm : m.projects.get? p.name with
    | none => rfl
    | some h => exact recorded_bound hm member

theorem atomic_unassign (p : Project) (member : Member) (m : Memory) :
    Atomic p.name 0 m (serve (.unassign p member) m) := by
  rw [serve_unassign]
  split
  · rfl
  · cases hm : m.projects.get? p.name with
    | none => rfl
    | some h =>
      by_cases hmem : h.members.contains member = true
      · simp only [hmem, if_true]
        refine recorded_insert (fun he => ?_) _
        -- The list has lost a member, so it is not the list from before.
        have herased : h.members = h.members.erase member :=
          congrArg Holding.members (Option.some.inj (hm.symm.trans he))
        have hlength := List.length_erase_of_mem (List.contains_iff_mem.1 hmem)
        have hpos := List.length_pos_of_mem (List.contains_iff_mem.1 hmem)
        rw [← herased] at hlength
        omega
      · simp only [hmem]
        rfl

/-- **Every call that changes a project does so whole or not at all.** -/
theorem atomic_serve {c : Call} (h : c.changes = some project) :
    Atomic project c.robots m (serve c m) := by
  cases c with
  | deleteRepository r => exact Option.some.inj h ▸ atomic_deleteRepository r m
  | removeProject p => exact Option.some.inj h ▸ atomic_removeProject p m
  | createProject name => exact Option.some.inj h ▸ atomic_createProject name m
  | assign p member => exact Option.some.inj h ▸ atomic_assign p member m
  | unassign p member => exact Option.some.inj h ▸ atomic_unassign p member m
  | _ => cases h

/-! ## Member actions -/

/-- A look-up changes nothing; it finds the project of the name, or none. -/
theorem run_lookUp (p : Profile) (name : String) (m : Memory) :
    (∃ e, (Action.lookUp p name).run serve m = (.error e, m))
      ∨ (Action.lookUp p name).run serve m = (.ok (.named name), m) := by
  rw [Action.lookUp, Calls.run_bind, Calls.run_one, serve_findProject]
  cases m.projects.get? name with
  | none => exact .inl ⟨_, rfl⟩
  | some h => exact .inr rfl

/-- What is made of the answer of a call does not matter. -/
theorem Atomic.andThen {α β : Type} {t : Calls (Except Error α)} (f : α → β)
    (h : Atomic project count m (t.run serve m)) :
    Atomic project count m ((t.andThen fun a => .done (.ok (f a))).run serve m) := by
  rw [Calls.run_andThen]
  generalize t.run serve m = out at h
  obtain ⟨answer, after⟩ := out
  cases answer with
  | ok a => exact h
  | error e => exact h

/-- **An action on a member is made whole or not at all**, if the one call behind its look-up is. -/
theorem atomic_withMembers {β : Type} {t : Project → Calls (Except Error β)} (p : Profile)
    (h : Atomic project count m ((t (.named project)).run serve m)) :
    Atomic project count m
      ((p.withMembers ((Action.lookUp p project).andThen t)).run serve m) := by
  unfold Profile.withMembers
  split
  · rw [Calls.run_andThen]
    rcases run_lookUp p project m with ⟨e, hrun⟩ | hrun
    · rw [hrun]
      rfl
    · rw [hrun]
      exact h
  · rfl

/-- **Changes of a backend in memory are atomic and local** — creating and removing a project,
deleting a repository, binding and unbinding a member, and the actions on members. Where one fails,
everything is exactly as before; this holds of the calls in place as well, which change the state
before they know. Where one succeeds, the log has exactly one more entry, the project it names has
been changed and no other, and one more robot has been counted just if it binds a robot. -/
theorem changes_atomic (m : Memory) :
    (∀ c : Call, serve c m = serveInPlace c m)
    ∧ (∀ (c : Call) (project : String), c.changes = some project →
      Atomic project c.robots m (serve c m))
    ∧ ∀ (name : String) (member : Member),
      Atomic name (if member.type = .robot then 1 else 0) m
        (((Action.bind name member).perform m.profile).run serve m)
      ∧ Atomic name 0 m (((Action.unbind name member).perform m.profile).run serve m) := by
  refine ⟨fun c => serve_eq_inPlace c m, fun c project => atomic_serve, fun name member => ⟨?_, ?_⟩⟩
  · exact atomic_withMembers m.profile (.andThen _ (atomic_assign (.named name) member m))
  · exact atomic_withMembers m.profile (.andThen _ (atomic_unassign (.named name) member m))

end Memory

end RegistryFleet
