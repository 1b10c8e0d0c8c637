import RegistryFleet.Proofs.Vendor.Adapter
import RegistryFleet.Proofs.Vendor.Deletion
import RegistryFleet.Reconcile.World

/-!
# Proofs/Vendor/Lookup — which project a lookup by name comes to

A lookup either goes through the listing of all projects, and then comes to a project of the name
that was asked for, or asks a server that looks names up by itself, and then comes to whatever
project the reply names. What an action does after its lookup, it does to the project that the
lookup came to.

* `Connection.leads_findProject` — a lookup is one exchange, at every vendor.
* `Action.perform_of_sought` — the calls of an action after its lookup.
* `Backend.lookup_stays` — which project a lookup comes to, and that an action stays with it.
-/

namespace RegistryFleet

open Json (Typed)
open Web (Connection Exchanges Peer Reply Request Subject)

/-! ## Lookups -/

namespace Web.Connection

variable {c : Connection} {name : String} {log : List (Request × Reply)}
  {answer : Except Error Project}

/-- Where a project is looked up. -/
def lookupPath (c : Connection) (name : String) : String :=
  match c.registry.vendor with
  | .harbor => Harbor.projectPath name
  | .acr => Acr.catalogPath
  | .artifactory => Artifactory.storagePath c none

/-- What a lookup is about. -/
def lookupSubject (c : Connection) (name : String) : Subject :=
  match c.registry.vendor with
  | .harbor => Harbor.aboutProject name
  | .acr => ⟨"registry", c.registry.name⟩
  | .artifactory => ⟨"project", Artifactory.dockerRepository c⟩

/-- **What a body tells about a name**: a server that looks names up by itself tells one project,
the others tell all projects. -/
def toldOf (c : Connection) (name body : String) : Except Error Project :=
  match c.registry.vendor with
  | .harbor =>
    match document (.optional Harbor.readProject) none body with
    | some item => .ok item.project
    | none => .error (.notFound "project" name)
  | .acr => findIn name (Repository.projectsOf (document Acr.readCatalog [] body))
  | .artifactory =>
    findIn name (Repository.projectsOf (Artifactory.folderNames
      (document Artifactory.readFolder [] body)))

/-- **A lookup is one exchange**, and its answer is what the body tells. -/
theorem leads_findProject (h : (c.exchanges (.findProject name)).Leads log answer) :
    ∃ sent, c.Sends (c.lookupSubject name) .get (c.lookupPath name) [] none log sent
      ∧ answer = sent >>= c.toldOf name := by
  unfold exchanges at h
  unfold lookupSubject lookupPath toldOf
  rcases hvendor : c.registry.vendor with _ | _ | _
  · simp only [hvendor] at h ⊢
    refine leads_document_bind (fun text => ?_) h
    rcases document (.optional Harbor.readProject) none text with _ | item <;> rfl
  · simp only [hvendor] at h ⊢
    simp only [Acr.projects, Acr.catalog, bind_assoc, pure_bind] at h
    refine leads_document_bind (fun text => ?_) h
    rfl
  · simp only [hvendor] at h ⊢
    simp only [Artifactory.projects, Artifactory.folders, bind_assoc, pure_bind] at h
    refine leads_document_bind (fun text => ?_) h
    rfl

/-- A project that is found in a listing has the name that was looked for. -/
theorem name_of_findIn {listed : List Project} {p : Project} (h : findIn name listed = .ok p) :
    p.name = name := by
  unfold findIn at h
  split at h
  · next hfind =>
    obtain rfl := Except.ok.inj h
    simpa using List.find?_some hfind
  · cases h

/-- **Only a server that looks names up by itself** tells another project. -/
theorem name_of_toldOf {body : String} {p : Project} (h : c.toldOf name body = .ok p) :
    p.name = name ∨ c.registry.vendor = .harbor
      ∧ ∃ item, (Typed.optional Harbor.readProject).read body = .ok (some item)
        ∧ p = item.project := by
  unfold toldOf at h
  split at h
  · next hvendor =>
    split at h
    · next item hitem =>
      exact .inr ⟨hvendor, item, document_eq_some_iff.1 hitem, (Except.ok.inj h).symm⟩
    · cases h
  · exact .inl (name_of_findIn h)
  · exact .inl (name_of_findIn h)

/-- **A reply that names the project** to a server that looks names up by itself. -/
def Named (c : Connection) (p : Project) (reply : Reply) : Prop :=
  c.registry.vendor = .harbor ∧ ∃ item, p = item.project
    ∧ Counts (fun body => (Typed.optional Harbor.readProject).read body = .ok (some item)) reply

/-- A reply that tells a project of another name names it. -/
theorem named_of_told {p : Project} : ∀ {reply : Reply}, Counts (c.toldOf name · = .ok p) reply →
    p.name = name ∨ c.Named p reply
  | .answered _ _, ⟨hlow, hhigh, htold⟩ =>
    (name_of_toldOf htold).imp_right fun ⟨hvendor, item, hitem, hp⟩ =>
      ⟨hvendor, item, hp, hlow, hhigh, hitem⟩

/-- **What a successful lookup comes to.** -/
theorem found_of_leads {p : Project} (h : (c.exchanges (.findProject name)).Leads log (.ok p)) :
    p.name = name ∨ ∃ request reply, log = [(request, reply)] ∧ c.Named p reply := by
  obtain ⟨sent, hsends, hp⟩ := leads_findProject h
  rcases sent with e | text
  · cases hp
  obtain ⟨request, reply, -, rfl, hcounts⟩ := hsends.of_ok
  have htold : Counts (c.toldOf name · = .ok p) reply := hcounts.mono fun _ h => h ▸ hp.symm
  exact (named_of_told htold).imp_right fun hnamed => ⟨request, reply, rfl, hnamed⟩

/-- A project that a reply names is what the lookup comes to. -/
theorem leads_of_named {p : Project} {request : Request} {reply : Reply} (hnamed : c.Named p reply)
    (h : (c.exchanges (.findProject name)).Leads [(request, reply)] answer) : answer = .ok p := by
  obtain ⟨hvendor, item, rfl, hcounts⟩ := hnamed
  obtain ⟨sent, hsends, rfl⟩ := leads_findProject h
  obtain ⟨text, rfl, hitem⟩ := hsends.of_counts hcounts
  change c.toldOf name text = _
  unfold toldOf
  simp only [hvendor, document_eq_some_iff.2 hitem]

/-- The repositories that are listed for a project are said to be its own. -/
theorem project_of_leads {project : Project} {rs : List Repository}
    (h : (c.exchanges (.listRepositories project)).Leads log (.ok rs)) :
    ∀ r ∈ rs, r.project = project.name := by
  intro r hr
  unfold exchanges at h
  rcases hvendor : c.registry.vendor with _ | _ | _
  all_goals
    simp only [hvendor] at h
    obtain ⟨names, front, back, -, -, -, hrs⟩ := h.bind_ok
    rw [Except.ok.inj hrs] at hr
    obtain ⟨name, -, rfl⟩ := List.mem_map.1 hr
    rfl

end Web.Connection

/-! ## Calls of an action -/

/-- The project that a call is about. -/
def Call.concerns? : Call → Option String
  | .listProjects => none
  | .findProject name | .createProject name => some name
  | .listRepositories p | .removeProject p | .members p | .assign p _ | .unassign p _ => some p.name
  | .deleteRepository r => some r.project

/-- The repositories that are listed for a project are its own. -/
def Call.Owns : (call : Call) → call.Answer → Prop
  | .listRepositories p, .ok rs => ∀ r ∈ rs, r.project = p.name
  | _, _ => True

/-- The project that an action looks up. -/
def Action.sought? : Action → Option String
  | .createProject _ => none
  | .deleteProject name | .bind name _ | .unbind name _ => some name

namespace Calls

variable {α β σ : Type} {A : (call : Call) → call.Answer → Prop} {P : Call → Prop} {name : String}

/-- **Only such calls are asked**, as long as the answers are of a kind. -/
def Asks (A : (call : Call) → call.Answer → Prop) (P : Call → Prop) : Calls α → Prop
  | .done _ => True
  | .ask call next => P call ∧ ∀ answer, A call answer → Asks A P (next answer)

theorem Asks.bind {f : α → Calls β} (hf : ∀ a, (f a).Asks A P) :
    ∀ {t : Calls α}, t.Asks A P → (t.bind f).Asks A P
  | .done a, _ => hf a
  | .ask _ _, h => ⟨h.1, fun answer hanswer => Asks.bind hf (h.2 answer hanswer)⟩

theorem Asks.andThen {t : Calls (Except Error α)} {f : α → Calls (Except Error β)}
    (ht : t.Asks A P) (hf : ∀ a, (f a).Asks A P) : (t.andThen f).Asks A P := by
  refine Asks.bind (fun r => ?_) ht
  rcases r with e | a
  · trivial
  · exact hf a

theorem asks_one {call : Call} (h : P call) : (one call).Asks A P := ⟨h, fun _ _ => trivial⟩

/-- The server, with a record of what it is asked. -/
def recorded (server : Server σ) : Server (σ × List Call) := fun call s =>
  let (answer, t) := server call s.1
  (answer, t, s.2 ++ [call])

/-- **The calls of a run** are of the kind that the tree asks. -/
theorem Asks.run {server : Server σ} (hA : ∀ call s, A call (server call s).1) :
    ∀ {t : Calls α} (s : σ) (log : List Call), t.Asks A P →
      ∀ call ∈ (t.run (recorded server) (s, log)).2.2, call ∈ log ∨ P call
  | .done _, _, _, _, call, hcall => .inl hcall
  | .ask c next, s, log, h, call, hcall => by
      have hrest := Asks.run hA (server c s).2 (log ++ [c]) (h.2 _ (hA c s)) call hcall
      rw [List.mem_append, List.mem_singleton] at hrest
      rcases hrest with (hlog | rfl) | hP
      · exact .inl hlog
      · exact .inr h.1
      · exact .inr hP

theorem asks_deleteRepositories : ∀ {rs : List Repository}, (∀ r ∈ rs, r.project = name) →
    (deleteRepositories rs).Asks A (·.concerns? = some name)
  | [], _ => trivial
  | r :: rs, h => by
      obtain ⟨hr, hrs⟩ := List.forall_mem_cons.1 h
      exact (asks_one (congrArg some hr)).andThen fun _ => asks_deleteRepositories hrs

/-- A deletion stays with its project. -/
theorem asks_delete (p : Profile) (project : Project) :
    (p.delete project).Asks Call.Owns (·.concerns? = some project.name) := by
  refine ⟨rfl, fun answer hanswer => ?_⟩
  rcases answer with e | rs
  · trivial
  change Asks _ _ (ite _ _ _)
  split
  · trivial
  · exact (asks_deleteRepositories hanswer).andThen fun _ => asks_one rfl

end Calls

namespace Action

/-- An action stays with the project it looked up. -/
def Stays (name : String) (t : Calls (Except Error Effect)) : Prop :=
  (∃ r, t = .done r) ∨ ∃ next, t = .ask (.findProject name) next
    ∧ (∀ project, (next (.ok project)).Asks Call.Owns (·.concerns? = some project.name))
    ∧ ∀ e, ∃ r, next (.error e) = .done r

/-- A member action makes one call after its lookup. -/
theorem stays_withMembers (p : Profile) (name : String) {f : Project → Calls (Except Error Effect)}
    (hf : ∀ project, (f project).Asks Call.Owns (·.concerns? = some project.name)) :
    Stays name (p.withMembers ((lookUp p name).andThen f)) := by
  unfold Profile.withMembers
  split
  · refine .inr ⟨_, rfl, hf, fun e => ?_⟩
    rcases e with _ | _ | _ | _ <;> exact ⟨_, rfl⟩
  · exact .inl ⟨_, rfl⟩

/-- **The calls of an action after its lookup** are about the project that the lookup came to. -/
theorem stays_perform (p : Profile) {name : String} :
    ∀ {a : Action}, a.sought? = some name → Stays name (a.perform p)
  | deleteProject _, rfl => by
      refine .inr ⟨_, rfl, fun project => ?_, fun e => ?_⟩
      · exact (Calls.asks_delete p project).andThen fun _ => trivial
      · rcases e with _ | _ | _ | _ <;> exact ⟨_, rfl⟩
  | bind _ _, rfl | unbind _ _, rfl => by
      refine stays_withMembers p name fun project => ?_
      exact Calls.Asks.andThen (Calls.asks_one rfl) fun _ => trivial

end Action

/-! ## Actions on any backend -/

namespace Backend

/-- A backend as a server, together with the peer that it may speak to. -/
def server : Calls.Server (Backend × Peer) := fun call s => s.1.serve call s.2

/-- What a lookup comes to. -/
def found (b : Backend) (peer : Peer) (name : String) : Except Error Project :=
  (b.serve (.findProject name) peer).1

/-- **The calls of an action**, in order. -/
def asked (b : Backend) (peer : Peer) (a : Action) : List Call :=
  ((a.perform b.profile).run (Calls.recorded server) ((b, peer), [])).2.2

variable {b : Backend} {peer : Peer} {name : String}

/-- Every backend lists the repositories of the project it was asked for. -/
theorem owns_server : ∀ (call : Call) (s : Backend × Peer), call.Owns (server call s).1
  | .listRepositories p, (memory m, peer) => by
      change (Call.listRepositories p).Owns (m.repositories p)
      unfold Memory.repositories
      rcases m.holding p.name with e | h
      · trivial
      · intro r hr
        obtain ⟨_, -, rfl⟩ := List.mem_map.1 hr
        rfl
  | .listRepositories p, (remote c, peer) => by
      change (Call.listRepositories p).Owns (c.serve Peer.reply (.listRepositories p) peer).1
      have hleads := c.leads_exchanged Peer.reply peer (.listRepositories p)
      rcases hanswer : (c.serve Peer.reply (.listRepositories p) peer).1 with e | rs
      · trivial
      · exact Connection.project_of_leads (hanswer ▸ hleads)
  | .listProjects, _ | .findProject _, _ | .deleteRepository _, _ | .removeProject _, _
  | .createProject _, _ | .members _, _ | .assign .., _ | .unassign .., _ => trivial

/-- A backend in memory comes to the project of the name. -/
theorem name_of_memory {m : Memory} {p : Project} (h : (memory m).found peer name = .ok p) :
    p.name = name := by
  change m.find name = .ok p at h
  unfold Memory.find at h
  split at h
  · next hfind =>
    obtain rfl := Except.ok.inj h
    simpa using List.find?_some hfind
  · cases h

/-- What an action does after its lookup, it does to the project that the lookup came to. -/
theorem asked_of_sought {a : Action} (h : a.sought? = some name) {call : Call}
    (hcall : call ∈ b.asked peer a) :
    call = .findProject name ∨ ∃ p, b.found peer name = .ok p ∧ call.concerns? = some p.name := by
  unfold asked at hcall
  rcases a.stays_perform b.profile h with ⟨r, hr⟩ | ⟨next, hnext, hok, herror⟩
  · rw [hr] at hcall
    cases hcall
  · rw [hnext] at hcall
    change call ∈ ((next (b.found peer name)).run (Calls.recorded server)
      ((server (.findProject name) (b, peer)).2, [.findProject name])).2.2 at hcall
    rcases hfound : b.found peer name with e | p
    · obtain ⟨r, hr⟩ := herror e
      rw [hfound, hr] at hcall
      exact .inl (List.mem_singleton.1 hcall)
    · rw [hfound] at hcall
      have hasked := (hok p).run owns_server _ _ call hcall
      rw [List.mem_singleton] at hasked
      exact hasked.imp_right fun hp => ⟨p, rfl, hp⟩

/-- **Which project a lookup comes to** — a project of the name, unless a server that looks names up
by itself answers with another one, which is then taken as it is; and whatever an action does after
its lookup, it does to the project that the lookup came to. -/
theorem lookup_stays (b : Backend) (peer : Peer) (name : String) :
    (∀ p, b.found peer name = .ok p → p.name = name ∨ ∃ c, b = remote c ∧ ∃ request reply,
      c.exchanged Peer.reply peer (.findProject name) = [(request, reply)] ∧ c.Named p reply)
    ∧ (∀ c p request reply, b = remote c →
      c.exchanged Peer.reply peer (.findProject name) = [(request, reply)] → c.Named p reply →
      b.found peer name = .ok p)
    ∧ ∀ a : Action, a.sought? = some name → ∀ call ∈ b.asked peer a, call = .findProject name
      ∨ ∃ p, b.found peer name = .ok p ∧ call.concerns? = some p.name := by
  refine ⟨fun p hp => ?_, ?_, fun a ha call hcall => asked_of_sought ha hcall⟩
  · rcases b with m | c
    · exact .inl (name_of_memory hp)
    · have hleads := c.leads_exchanged Peer.reply peer (.findProject name)
      change (c.serve Peer.reply (.findProject name) peer).1 = .ok p at hp
      rw [hp] at hleads
      exact (Connection.found_of_leads hleads).imp_right fun h => ⟨c, rfl, h⟩
  · rintro c p request reply rfl hlog hnamed
    have hleads := c.leads_exchanged Peer.reply peer (.findProject name)
    rw [hlog] at hleads
    exact Connection.leads_of_named hnamed hleads

/-! ### A server that reads names as numbers -/

/-- A peer whose project of the number 7 is the library. -/
def knownByNumber : Peer :=
  .scripted (.ofList [("GET https://hub.example.com/api/v2.0/projects/7",
    [.answered 200 "\x7b\"name\":\"library\",\"project_id\":7\x7d"])]) (.answered 200 "")

theorem lookup_stays_library :
    (Action.deleteProject "7").sought? = some "7"
      ∧ Call.listRepositories ⟨"library", some "7"⟩
        ∈ (remote Connection.guardedHub).asked knownByNumber (.deleteProject "7")
      ∧ ∃ p, (remote Connection.guardedHub).found knownByNumber "7" = .ok p
        ∧ (Call.listRepositories ⟨"library", some "7"⟩).concerns? = some p.name := by
  have hcall : Call.listRepositories ⟨"library", some "7"⟩
      ∈ (remote Connection.guardedHub).asked knownByNumber (.deleteProject "7") := by decide +kernel
  refine ⟨rfl, hcall, ?_⟩
  have hfound := (lookup_stays (remote Connection.guardedHub) knownByNumber "7").2.2
    (.deleteProject "7") rfl _ hcall
  exact hfound.resolve_left (by decide)

/-- **Another project is deleted** — the one that has the name for its number. -/
theorem lookup_strays : ∃ p, (remote Connection.guardedHub).found knownByNumber "7" = .ok p
    ∧ p.name ≠ "7"
    ∧ Call.removeProject p
      ∈ (remote Connection.guardedHub).asked knownByNumber (.deleteProject "7") :=
  ⟨⟨"library", some "7"⟩, by decide +kernel⟩

end Backend

end RegistryFleet
