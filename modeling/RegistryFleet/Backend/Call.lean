import RegistryFleet.Fleet.Error
import RegistryFleet.Fleet.Project
import RegistryFleet.Fleet.Registry

/-!
# Backend/Call — the contract of a registry backend

A backend answers calls. What the fleet does with a backend is a tree of calls: each node asks one
call and goes on according to the answer. A tree says which calls are made, in which order, and
nothing about the backend that answers them: run against a backend in memory it changes a state,
run against a vendor's interface it sends requests.

* `Calls.run` — the run of a tree against any backend.
* `Calls.run_bind` — a run of a sequence is the sequence of the runs.
-/

namespace RegistryFleet

/-- **One call to a backend.** -/
inductive Call
  /-- List the projects that are present. -/
  | listProjects
  /-- Look a project up by name. -/
  | findProject (name : String)
  /-- List the repositories of a project. -/
  | listRepositories (project : Project)
  | deleteRepository (repository : Repository)
  /-- Remove a project whose repositories are gone. -/
  | removeProject (project : Project)
  | createProject (name : String)
  /-- List the members of a project. -/
  | members (project : Project)
  /-- Bind a member to a project. -/
  | assign (project : Project) (member : Member)
  /-- Unbind a member from a project. -/
  | unassign (project : Project) (member : Member)
  deriving DecidableEq, Repr

namespace Call

/-- What a successful call returns. Binding a member may generate credentials. -/
abbrev Result : Call → Type
  | listProjects => List Project
  | findProject _ => Project
  | listRepositories _ => List Repository
  | deleteRepository _ => Unit
  | removeProject _ => Unit
  | createProject _ => Project
  | members _ => List Member
  | assign _ _ => Option Credentials
  | unassign _ _ => Unit

/-- The answer to a call. -/
abbrev Answer (c : Call) : Type := Except Error c.Result

end Call

/-- **A tree of calls** that ends in a value. -/
inductive Calls (α : Type)
  /-- No call is left to make. -/
  | done (value : α)
  /-- Make the call and go on with its answer. -/
  | ask (call : Call) (next : call.Answer → Calls α)

namespace Calls

variable {α β : Type}

/-- Goes on with `f` where the tree ends. -/
def bind : Calls α → (α → Calls β) → Calls β
  | done a, f => f a
  | ask c next, f => ask c fun answer => (next answer).bind f

instance : Monad Calls where
  pure := done
  bind := bind

/-- The tree of a single call. -/
def one (c : Call) : Calls c.Answer := ask c done

/-- Goes on with `f` unless the tree ends in a failure. -/
def andThen (t : Calls (Except Error α)) (f : α → Calls (Except Error β)) :
    Calls (Except Error β) :=
  t.bind fun
    | .ok a => f a
    | .error e => done (.error e)

/-- Something that answers calls and changes by doing so. -/
abbrev Server (σ : Type) : Type := (c : Call) → σ → c.Answer × σ

/-- **The run of a tree** against a server. -/
def run {σ : Type} (server : Server σ) : Calls α → σ → α × σ
  | done a, s => (a, s)
  | ask c next, s =>
    let (answer, s) := server c s
    (next answer).run server s

theorem bind_done (t : Calls α) : t.bind done = t := by
  induction t with
  | done a => rfl
  | ask c next ih => simp [bind, ih]

theorem bind_assoc {γ : Type} (t : Calls α) (f : α → Calls β) (g : β → Calls γ) :
    (t.bind f).bind g = t.bind fun a => (f a).bind g := by
  induction t with
  | done a => rfl
  | ask c next ih => simp [bind, ih]

theorem run_bind {σ : Type} (server : Server σ) (t : Calls α) (f : α → Calls β) (s : σ) :
    (t.bind f).run server s
      = (f (t.run server s).1).run server (t.run server s).2 := by
  induction t generalizing s with
  | done a => rfl
  | ask c next ih => simp [bind, run, ih]

end Calls

/-- What the fleet knows of a backend without calling it. -/
structure Profile where
  registry : Registry
  /-- Projects can be created. -/
  creates : Bool
  /-- There is a member model. -/
  hasMembers : Bool
  deriving DecidableEq

namespace Profile

/-- The failure for a capability that the vendor lacks. -/
def gap (p : Profile) (capability : String) : Error :=
  .notImplemented p.registry.vendor.label capability

/-- Creates a project, where the backend can. -/
def create (p : Profile) (name : String) : Calls (Except Error Project) :=
  if p.creates then .one (.createProject name) else .done (.error (p.gap "project creation"))

/-- Runs `t` where the backend has members. -/
def withMembers {α : Type} (p : Profile) (t : Calls (Except Error α)) : Calls (Except Error α) :=
  if p.hasMembers then t else .done (.error (p.gap "member management"))

end Profile

end RegistryFleet
