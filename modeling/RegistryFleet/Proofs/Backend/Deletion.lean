import RegistryFleet.Proofs.Backend.Memory

/-!
# Proofs/Backend/Deletion — a deletion keeps its order, whatever the backend answers

A deletion is a sequence of calls that the first failure ends. So the calls it makes are told by the
answers alone: first the listing, then the listed repositories one by one up to the first that
cannot be deleted, and the removal last, when there is no such repository.

* `Calls.record` — the calls of a run, with the answers to them.
* `DeletionCourse` — the courses that a deletion can take.
* `Profile.delete_in_order` — every deletion takes one of them, whoever answers.
-/

namespace RegistryFleet

/-- **A call that was made**, and the answer to it. -/
structure Asked where
  call : Call
  answer : call.Answer

namespace Asked

/-- Why the call failed, if it did. -/
def failure? (a : Asked) : Option Error :=
  match a.answer with
  | .ok _ => none
  | .error e => some e

/-- A repository that was deleted. -/
def deleted (r : Repository) : Asked := ⟨.deleteRepository r, .ok ()⟩

/-- Where the listing and the deletions behind it succeeded, the last call tells the failure. -/
theorem findSome?_failure? (project : Project) (listed rs : List Repository) (last : Asked) :
    (⟨.listRepositories project, .ok listed⟩ :: (rs.map deleted ++ [last])).findSome? failure?
      = last.failure? := by
  have hdeleted : (rs.map deleted).findSome? failure? = none := by simp [deleted, failure?]
  rw [List.findSome?_cons, List.findSome?_append, hdeleted]
  change (List.findSome? failure? [last]) = _
  rw [List.findSome?_singleton]

end Asked

namespace Calls

variable {σ α β : Type}

/-! ## Records -/

/-- The server, with a record of what it is asked and answers. -/
def Server.recorded (server : Server σ) : Server (σ × List Asked) := fun call s =>
  let (answer, t) := server call s.1
  (answer, t, s.2 ++ [⟨call, answer⟩])

/-- **The record of a run** — its calls with the answers to them, in order. -/
def record (server : Server σ) (t : Calls α) (s : σ) : List Asked :=
  (t.run server.recorded (s, [])).2.2

/-- A run adds its record to what was recorded before. -/
theorem run_recorded_log (server : Server σ) : ∀ (t : Calls α) (s : σ) (log : List Asked),
    (t.run server.recorded (s, log)).2.2 = log ++ t.record server s
  | .done _, _, log => (List.append_nil log).symm
  | .ask c next, s, log => by
      have htail := run_recorded_log server (next (server c s).1) (server c s).2
      refine (htail (log ++ [⟨c, (server c s).1⟩])).trans ?_
      rw [List.append_assoc]
      exact congrArg (log ++ ·) (htail [⟨c, (server c s).1⟩]).symm

theorem record_ask (server : Server σ) (c : Call) (next : c.Answer → Calls α) (s : σ) :
    (ask c next).record server s
      = ⟨c, (server c s).1⟩ :: (next (server c s).1).record server (server c s).2 :=
  run_recorded_log server (next (server c s).1) (server c s).2 [⟨c, (server c s).1⟩]

@[simp] theorem record_one (server : Server σ) (c : Call) (s : σ) :
    (one c).record server s = [⟨c, (server c s).1⟩] := rfl

/-- The record of a sequence is that of its parts, one after the other. -/
theorem record_bind (server : Server σ) (f : α → Calls β) : ∀ (t : Calls α) (s : σ),
    (t.bind f).record server s
      = t.record server s ++ (f (t.run server s).1).record server (t.run server s).2
  | .done _, _ => rfl
  | .ask c next, s => by
      have htail := record_bind server f (next (server c s).1) (server c s).2
      rw [record_ask, List.cons_append, run, ← htail]
      exact record_ask server c (fun answer => (next answer).bind f) s

/-- A failure ends the record of a sequence. -/
theorem record_andThen (server : Server σ) (t : Calls (Except Error α))
    (f : α → Calls (Except Error β)) (s : σ) :
    (t.andThen f).record server s
      = t.record server s ++ match (t.run server s).1 with
        | .ok a => (f a).record server (t.run server s).2
        | .error _ => [] := by
  unfold andThen
  rw [record_bind]
  cases (t.run server s).1 <;> rfl

end Calls

variable {σ : Type}

/-! ## The repositories -/

/-- **The repositories go in order** — up to the first that cannot be deleted, or all of them. -/
theorem record_deleteRepositories (server : Calls.Server σ) : ∀ (rs : List Repository) (s : σ),
    (∃ front r back e, rs = front ++ r :: back
      ∧ (deleteRepositories rs).record server s
        = front.map Asked.deleted ++ [⟨.deleteRepository r, .error e⟩]
      ∧ ((deleteRepositories rs).run server s).1 = .error e)
    ∨ (deleteRepositories rs).record server s = rs.map Asked.deleted
      ∧ ((deleteRepositories rs).run server s).1 = .ok ()
  | [], _ => .inr ⟨rfl, rfl⟩
  | r :: rest, s => by
      rw [deleteRepositories, Calls.record_andThen, Calls.run_andThen, Calls.record_one,
        Calls.run_one]
      cases hanswer : (server (.deleteRepository r) s).1 with
      | error e => exact .inl ⟨[], r, rest, e, rfl, rfl, rfl⟩
      | ok _ =>
        rcases record_deleteRepositories server rest (server (.deleteRepository r) s).2 with
          ⟨front, r', back, e, rfl, hrecord, hresult⟩ | ⟨hrecord, hresult⟩
        · exact .inl
            ⟨r :: front, r', back, e, rfl, congrArg (Asked.deleted r :: ·) hrecord, hresult⟩
        · exact .inr ⟨congrArg (Asked.deleted r :: ·) hrecord, hresult⟩

/-! ## The project -/

/-- **The courses that a deletion can take** — the calls it makes with the answers to them, and how
it ends. -/
inductive DeletionCourse (force : Bool) (project : Project) :
    List Asked → Except Error Unit → Prop
  /-- The listing failed. -/
  | unlisted (e : Error) :
    DeletionCourse force project [⟨.listRepositories project, .error e⟩] (.error e)
  /-- Repositories stood in the way. -/
  | refused {listed : List Repository} (hlisted : listed ≠ []) (hforce : force = false) :
    DeletionCourse force project [⟨.listRepositories project, .ok listed⟩]
      (.error (repositoriesPresent project))
  /-- A repository could not be deleted: those in front of it are gone, those behind it stay. -/
  | stopped (front : List Repository) (r : Repository) (back : List Repository) (e : Error)
    (hforce : force = true) :
    DeletionCourse force project
      (⟨.listRepositories project, .ok (front ++ r :: back)⟩
        :: (front.map Asked.deleted ++ [⟨.deleteRepository r, .error e⟩])) (.error e)
  /-- The repositories are gone, and the project was to be removed. -/
  | removed {listed : List Repository} (hlisted : listed = [] ∨ force = true)
    (answer : Except Error Unit) :
    DeletionCourse force project
      (⟨.listRepositories project, .ok listed⟩
        :: (listed.map Asked.deleted ++ [⟨.removeProject project, answer⟩])) answer

namespace DeletionCourse

variable {force : Bool} {project : Project} {log : List Asked} {result : Except Error Unit}

/-- A removal is no deletion of a repository. -/
theorem not_mem_deleted (rs : List Repository) (answer : Except Error Unit) :
    (⟨.removeProject project, answer⟩ : Asked) ∉ rs.map Asked.deleted := fun h => by
  obtain ⟨r, -, hr⟩ := List.mem_map.1 h
  cases hr

/-- **A deletion succeeds** just if the project was removed. -/
theorem ok_iff (h : DeletionCourse force project log result) :
    result = .ok () ↔ ⟨.removeProject project, .ok ()⟩ ∈ log := by
  cases h with
  | unlisted e => simp
  | refused hlisted hforce => simp
  | stopped front r back e hforce => simp [not_mem_deleted]
  | removed hlisted answer =>
    simp only [List.mem_cons, List.mem_append, not_mem_deleted, Asked.mk.injEq, reduceCtorEq,
      false_and, false_or, List.not_mem_nil, or_false, true_and, heq_eq_eq]
    exact eq_comm

/-- **A deletion fails** with the failure of the first call that failed, or because repositories
stand in the way. -/
theorem error_iff (h : DeletionCourse force project log result) (e : Error) :
    result = .error e ↔ log.findSome? Asked.failure? = some e
      ∨ e = repositoriesPresent project ∧ force = false
        ∧ ∃ listed, listed ≠ [] ∧ log = [⟨.listRepositories project, .ok listed⟩] := by
  cases h with
  | unlisted e' => simp [Asked.failure?]
  | refused hlisted hforce =>
    simp only [Except.error.injEq, List.findSome?_cons, Asked.failure?, List.findSome?_nil,
      reduceCtorEq, false_or, hforce, true_and]
    exact ⟨fun he => ⟨he.symm, _, hlisted, rfl⟩, fun he => he.1.symm⟩
  | stopped front r back e' hforce =>
    rw [Asked.findSome?_failure?]
    simp [Asked.failure?, hforce]
  | removed hlisted answer =>
    rw [Asked.findSome?_failure?]
    rcases result with e' | _ <;> simp [Asked.failure?]

end DeletionCourse

namespace Profile

/-- **A deletion takes one of the courses.** -/
theorem deletionCourse (p : Profile) (project : Project) (server : Calls.Server σ) (s : σ) :
    DeletionCourse p.registry.options.forceDelete project ((p.delete project).record server s)
      ((p.delete project).run server s).1 := by
  rw [delete, Calls.record_andThen, Calls.run_andThen, Calls.record_one, Calls.run_one]
  cases hlisting : (server (.listRepositories project) s).1 with
  | error e => exact .unlisted e
  | ok listed =>
    by_cases hrefused : listed ≠ [] ∧ p.registry.options.forceDelete = false
    · have hguard : (!listed.isEmpty && !p.registry.options.forceDelete) = true := by
        simp [hrefused]
      simp only [hguard, if_true]
      exact .refused hrefused.1 hrefused.2
    have hguard : ¬ (!listed.isEmpty && !p.registry.options.forceDelete) = true := by
      simpa using hrefused
    simp only [if_neg hguard, Calls.record_andThen, Calls.run_andThen]
    rcases record_deleteRepositories server listed (server (.listRepositories project) s).2 with
      ⟨front, r, back, e, rfl, hrecord, hresult⟩ | ⟨hrecord, hresult⟩
    · simp only [hrecord, hresult, List.append_nil]
      exact .stopped front r back e (by simpa using hrefused)
    · simp only [hrecord, hresult]
      exact .removed (by simpa [or_iff_not_imp_left] using hrefused) _

/-- **A deletion keeps its order under every failure** — whatever a backend answers, and whether or
not deletion is forced: the listing comes first; the repositories follow in the order of the
listing, up to the first that cannot be deleted; the removal comes last, and only when all of them
are gone. Where repositories are listed and deletion is not forced, it ends there with a recoverable
failure, and nothing is deleted. It succeeds just if the project was removed, and else fails as the
first call that failed did. -/
theorem delete_in_order (p : Profile) (project : Project) (server : Calls.Server σ) (s : σ) :
    ∃ log result, (p.delete project).record server s = log
      ∧ ((p.delete project).run server s).1 = result
      ∧ DeletionCourse p.registry.options.forceDelete project log result
      ∧ (repositoriesPresent project).kind = .recoverable
      ∧ (result = .ok () ↔ ⟨.removeProject project, .ok ()⟩ ∈ log)
      ∧ ∀ e, result = .error e ↔ log.findSome? Asked.failure? = some e
        ∨ e = repositoriesPresent project ∧ p.registry.options.forceDelete = false
          ∧ ∃ listed, listed ≠ [] ∧ log = [⟨.listRepositories project, .ok listed⟩] := by
  have hcourse := p.deletionCourse project server s
  exact ⟨_, _, rfl, rfl, hcourse, rfl, hcourse.ok_iff, hcourse.error_iff⟩

end Profile

end RegistryFleet
