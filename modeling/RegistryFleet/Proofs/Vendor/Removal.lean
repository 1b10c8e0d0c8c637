import RegistryFleet.Proofs.Vendor.Lookup

/-!
# Proofs/Vendor/Removal — what a removal that is reported as done has done

A removal looks its project up and deletes what the lookup comes to. That there is no such project
counts as done, and the lookup takes more than a word to that effect for it: a body that cannot be
understood, an empty answer, a listing that is itself missing. Past the lookup nothing is passed
over: every reply counts, and one of them is for the deletion of the project.

* `Connection.TakenForGone` — the replies on which a removal is reported as done without one.
* `Connection.removal_reported` — what stands behind a removal that is reported as done.
-/

namespace RegistryFleet.Web.Connection

open Json (Typed)

variable {σ : Type} {c : Connection} {name : String} {log : List (Request × Reply)}

/-! ## Lookups that come to nothing -/

/-- A body that lists all projects. -/
inductive Lists (c : Connection) (body : String) : List Project → Prop
  | acr {names : List String} (hvendor : c.registry.vendor = .acr)
      (h : Acr.readCatalog.read body = .ok names) : Lists c body (Repository.projectsOf names)
  | artifactory {children : List Artifactory.Child} (hvendor : c.registry.vendor = .artifactory)
      (h : Artifactory.readFolder.read body = .ok children) :
      Lists c body (Repository.projectsOf (Artifactory.folderNames children))

/-- **A reply that says that a project is absent** — a server that looks names up by itself has
nothing under the name, or a listing does not have it. -/
inductive SaysGone (c : Connection) (name : String) : Reply → Prop
  | missing (hvendor : c.registry.vendor = .harbor) (body : String) :
      SaysGone c name (.answered 404 body)
  | unlisted {reply : Reply} (h : Counts (fun body =>
      ∃ listed, c.Lists body listed ∧ ∀ p ∈ listed, p.name ≠ name) reply) : SaysGone c name reply

/-- A body that the lookup cannot understand. -/
def Unread (c : Connection) (body : String) : Prop :=
  match c.registry.vendor with
  | .harbor => ∀ item, (Typed.optional Harbor.readProject).read body ≠ .ok item
  | .acr => ∀ names, Acr.readCatalog.read body ≠ .ok names
  | .artifactory => ∀ children, Artifactory.readFolder.read body ≠ .ok children

/-- **A reply that is taken for a word that a project is absent.** -/
inductive TakenForGone (c : Connection) (name : String) : Reply → Prop
  | said {reply : Reply} (h : c.SaysGone name reply) : TakenForGone c name reply
  /-- The listing itself is not there. -/
  | noListing (hvendor : c.registry.vendor ≠ .harbor) (body : String) :
      TakenForGone c name (.answered 404 body)
  | unread {reply : Reply} (h : Counts c.Unread reply) : TakenForGone c name reply
  /-- The reply is a document that holds nothing. -/
  | nothing {reply : Reply} (hvendor : c.registry.vendor = .harbor)
      (h : Counts (fun body => (Typed.optional Harbor.readProject).read body = .ok none) reply) :
      TakenForGone c name reply

/-- A name is found in a listing unless it is not there. -/
theorem findIn_error_iff {listed : List Project} :
    (∃ e, findIn name listed = .error e) ↔ ∀ p ∈ listed, p.name ≠ name := by
  unfold findIn
  split
  · next p hfind =>
    have hname : p.name = name := by simpa using List.find?_some hfind
    exact ⟨fun ⟨_, he⟩ => (nomatch he),
      fun h => absurd hname (h p (List.mem_of_find?_eq_some hfind))⟩
  · next hfind => exact ⟨fun _ => by simpa using hfind, fun _ => ⟨_, rfl⟩⟩

/-- A body that does not tell the project says that it is absent. -/
theorem eq_of_toldOf_error {body : String} {e : Error} (h : c.toldOf name body = .error e) :
    e = .notFound "project" name := by
  have hlisted : ∀ {listed : List Project}, findIn name listed = .error e →
      e = .notFound "project" name := by
    intro listed hfind
    unfold findIn at hfind
    split at hfind
    · cases hfind
    · exact (Except.error.inj hfind).symm
  unfold toldOf at h
  split at h
  · split at h
    · cases h
    · exact (Except.error.inj h).symm
  · exact hlisted h
  · exact hlisted h

/-- A body that the lookup cannot understand does not tell the project. -/
theorem not_told_of_unread {body : String} (h : c.Unread body) :
    ∃ e, c.toldOf name body = .error e := by
  unfold Unread at h
  unfold toldOf
  rcases hvendor : c.registry.vendor with _ | _ | _
  all_goals
    simp only [hvendor] at h ⊢
    rw [document_of_not_read h]
    exact ⟨_, rfl⟩

/-- A listing tells the project that it has under the name. -/
theorem toldOf_of_lists {body : String} {listed : List Project} (h : c.Lists body listed) :
    c.toldOf name body = findIn name listed := by
  unfold toldOf
  rcases h with ⟨hvendor, h⟩ | ⟨hvendor, h⟩
  all_goals
    simp only [hvendor]
    rw [document_of_ok h]

/-- An empty answer does not tell the project. -/
theorem toldOf_of_nothing {body : String} (hvendor : c.registry.vendor = .harbor)
    (h : (Typed.optional Harbor.readProject).read body = .ok none) :
    c.toldOf name body = .error (.notFound "project" name) := by
  unfold toldOf
  simp only [hvendor]
  rw [document_of_ok h]

/-- A body that the lookup understands is a project, an empty answer or a listing. -/
theorem of_not_unread {body : String} (h : ¬ c.Unread body) :
    (c.registry.vendor = .harbor
        ∧ ∃ item, (Typed.optional Harbor.readProject).read body = .ok item)
      ∨ ∃ listed, c.Lists body listed := by
  unfold Unread at h
  rcases hvendor : c.registry.vendor with _ | _ | _
  all_goals
    simp only [hvendor] at h
    obtain ⟨read, hread⟩ := not_forall_not.1 h
  · exact .inl ⟨rfl, read, hread⟩
  · exact .inr ⟨_, .acr hvendor hread⟩
  · exact .inr ⟨_, .artifactory hvendor hread⟩

/-- **A body that does not tell the project is taken for a word that it is absent.** -/
theorem takenForGone_of_not_told :
    ∀ {reply : Reply}, Counts (fun body => ∃ e, c.toldOf name body = .error e) reply →
      c.TakenForGone name reply
  | .answered status body, ⟨hlow, hhigh, htold⟩ => by
      by_cases hread : c.Unread (withoutMark body)
      · exact .unread ⟨hlow, hhigh, hread⟩
      rcases of_not_unread hread with ⟨hvendor, item, hitem⟩ | ⟨listed, hlists⟩
      · rcases item with _ | item
        · exact .nothing hvendor ⟨hlow, hhigh, hitem⟩
        · obtain ⟨e, he⟩ := htold
          simp only [toldOf, hvendor, document_of_ok hitem] at he
          cases he
      · simp only [toldOf_of_lists hlists] at htold
        exact .said (.unlisted ⟨hlow, hhigh, listed, hlists, findIn_error_iff.1 htold⟩)

/-- **What is taken for a word that a project is absent**: the server has nothing there, or a body
that does not tell the project. -/
theorem takenForGone_iff {reply : Reply} : c.TakenForGone name reply
    ↔ (∃ body, reply = .answered 404 body)
      ∨ Counts (fun body => ∃ e, c.toldOf name body = .error e) reply := by
  constructor
  · rintro (⟨⟨-, body⟩ | h⟩ | ⟨-, body⟩ | h | ⟨hvendor, h⟩)
    · exact .inl ⟨body, rfl⟩
    · refine .inr (h.mono fun body ⟨listed, hlists, hname⟩ => ?_)
      rw [toldOf_of_lists hlists]
      exact findIn_error_iff.2 hname
    · exact .inl ⟨body, rfl⟩
    · exact .inr (h.mono fun _ => not_told_of_unread)
    · exact .inr (h.mono fun _ hbody => ⟨_, toldOf_of_nothing hvendor hbody⟩)
  · rintro (⟨body, rfl⟩ | h)
    · by_cases hvendor : c.registry.vendor = .harbor
      · exact .said (.missing hvendor body)
      · exact .noListing hvendor body
    · exact takenForGone_of_not_told h

/-! ## Lookups, by their reply -/

/-- **What a lookup comes to**, by its reply. -/
inductive Looked (c : Connection) (name : String) (reply : Reply) : Except Error Project → Prop
  | found {p : Project} (h : Counts (c.toldOf name · = .ok p) reply) : Looked c name reply (.ok p)
  | gone {entity missing : String} (h : c.TakenForGone name reply) :
      Looked c name reply (.error (.notFound entity missing))
  | failed {e : Error} (he : e.kind ≠ .notFound) (h : ¬ c.TakenForGone name reply) :
      Looked c name reply (.error e)

/-- The body of a reply that counts decides. -/
theorem looked_of_counts {reply : Reply} {text : String} (h : Counts (· = text) reply) :
    c.Looked name reply (c.toldOf name text) := by
  rcases htold : c.toldOf name text with e | p
  · obtain rfl := eq_of_toldOf_error htold
    exact .gone (takenForGone_of_not_told (h.mono fun _ hbody => ⟨_, hbody ▸ htold⟩))
  · exact .found (h.mono fun _ hbody => hbody ▸ htold)

/-- **A lookup either sends nothing and fails, or its reply decides.** -/
theorem leads_lookup {answer : Except Error Project}
    (h : (c.exchanges (.findProject name)).Leads log answer) :
    (log = [] ∧ ∃ e, answer = .error e ∧ e.kind ≠ .notFound)
      ∨ ∃ request reply, c.request? .get (c.lookupPath name) [] none = some request
        ∧ log = [(request, reply)] ∧ c.Looked name reply answer := by
  obtain ⟨sent, hsends, rfl⟩ := leads_findProject h
  rcases hsends with ⟨-, he⟩ | ⟨hrequest, hends⟩
  · exact .inl ⟨rfl, _, rfl, he⟩
  refine .inr ⟨_, _, hrequest, rfl, ?_⟩
  rcases hends with ⟨hcounts⟩ | body | ⟨he, hnot, hmissing⟩
  · exact looked_of_counts hcounts
  · exact .gone (takenForGone_iff.2 (.inl ⟨body, rfl⟩))
  · refine .failed he fun htaken => ?_
    rcases takenForGone_iff.1 htaken with ⟨body, hbody⟩ | hcounts
    · exact hmissing body hbody
    · exact hnot (hcounts.mono fun _ _ => trivial)

/-! ## Deletions of what was found -/

/-- Where a project itself is deleted, at a vendor that has projects. -/
def removalPath? (c : Connection) (name : String) : Option String :=
  match c.registry.vendor with
  | .harbor => some (Harbor.projectPath name)
  | .acr => none
  | .artifactory => some (Artifactory.folderPath c name)

/-- The project is deleted by one of these exchanges. -/
def Deletes (c : Connection) (name : String) (log : List (Request × Reply)) : Prop :=
  ∀ path ∈ c.removalPath? name, ∃ e ∈ log, c.request? .delete path [] none = some e.1

theorem Deletes.mono {log' : List (Request × Reply)} (hlog : log ⊆ log') (h : c.Deletes name log) :
    c.Deletes name log' := by
  intro path hpath
  obtain ⟨e, he, hrequest⟩ := h path hpath
  exact ⟨e, hlog he, hrequest⟩

/-- **A removal that succeeds deletes the project.** -/
theorem deletes_of_removeProject {project : Project}
    (h : (c.exchanges (.removeProject project)).Leads log (.ok ())) :
    c.Deletes project.name log := by
  have hsent : ∀ {subject : Subject} {path : String} {front : List (Request × Reply)},
      (c.delete subject path).Leads front (.ok ()) →
        ∃ e ∈ front, c.request? .delete path [] none = some e.1 := by
    intro subject path front hfront
    obtain ⟨answer, hsends, hanswer⟩ := leads_delete hfront
    rcases answer with e | text
    · cases hanswer
    obtain ⟨request, reply, hrequest, rfl, -⟩ := hsends.of_ok
    exact ⟨_, List.mem_singleton_self _, hrequest⟩
  intro path hpath
  unfold exchanges at h
  unfold removalPath? at hpath
  rcases hvendor : c.registry.vendor with _ | _ | _
  all_goals simp only [hvendor] at h hpath
  · obtain rfl := Option.some.inj hpath
    exact hsent h
  · cases hpath
  · obtain rfl := Option.some.inj hpath
    obtain ⟨_, front, back, rfl, hfront, -⟩ := h.bind_ok
    obtain ⟨e, he, hrequest⟩ := hsent hfront
    exact ⟨e, List.mem_append_left _ he, hrequest⟩

theorem strict_listRepositories {project : Project} :
    Strict (c.exchanges (.listRepositories project)) := by
  unfold exchanges
  rcases hvendor : c.registry.vendor with _ | _ | _
  · exact strict_pagesFrom.bind fun _ => strict_pure
  · exact strict_getDocument.bind fun _ => strict_pure
  · exact (strict_getDocument.bind fun _ => strict_pure).bind fun _ => strict_pure

theorem strict_deleteRepository {repository : Repository} :
    Strict (c.exchanges (.deleteRepository repository)) := by
  unfold exchanges
  rcases hvendor : c.registry.vendor with _ | _ | _ <;> exact strict_delete

theorem strict_removeProject {project : Project} :
    Strict (c.exchanges (.removeProject project)) := by
  unfold exchanges
  rcases hvendor : c.registry.vendor with _ | _ | _
  · exact strict_delete
  · exact strict_pure
  · exact strict_delete.bind fun _ => strict_delete.mapError

end RegistryFleet.Web.Connection

namespace RegistryFleet

open Web (Connection Exchanges Peer Reply Request)
open Web.Connection (Counts)

variable {α β σ : Type} {c : Connection} {log : List (Request × Reply)}

namespace Calls

/-- **A tree of calls that succeeds only where every reply counts.** -/
def Strict (c : Connection) (t : Calls (Except Error α)) : Prop :=
  ∀ log a, t.Leads c log (.ok a) → ∀ e ∈ log, Counts (fun _ => True) e.2

theorem strict_done {r : Except Error α} : (done r).Strict c := by
  rintro log a ⟨rfl, -⟩ e he
  cases he

theorem strict_one {call : Call} (h : Connection.Strict (c.exchanges call)) :
    (one call).Strict c :=
  fun log a hleads => h log a (leads_one.1 hleads)

theorem Strict.andThen {t : Calls (Except Error α)} {f : α → Calls (Except Error β)}
    (ht : t.Strict c) (hf : ∀ a, (f a).Strict c) : (t.andThen f).Strict c := by
  intro log b h e he
  obtain ⟨a, front, back, rfl, hfront, hback⟩ := h.andThen_ok
  exact (List.mem_append.1 he).elim (ht front a hfront e) (hf a back b hback e)

theorem strict_deleteRepositories : ∀ {rs : List Repository}, (deleteRepositories rs).Strict c
  | [] => strict_done
  | _ :: _ => (strict_one Connection.strict_deleteRepository).andThen fun _ =>
      strict_deleteRepositories

theorem strict_delete (p : Profile) (project : Project) : (p.delete project).Strict c := by
  refine (strict_one Connection.strict_listRepositories).andThen fun rs => ?_
  split
  · exact strict_done
  · exact strict_deleteRepositories.andThen fun _ => strict_one Connection.strict_removeProject

/-- **A deletion that succeeds deletes the project.** -/
theorem deletes_of_delete {p : Profile} {project : Project}
    (h : (p.delete project).Leads c log (.ok ())) : c.Deletes project.name log := by
  obtain ⟨rs, front, back, rfl, -, h⟩ := h.andThen_ok
  split at h
  · cases h.2
  · obtain ⟨_, middle, back, rfl, -, h⟩ := h.andThen_ok
    have hback := Connection.deletes_of_removeProject (leads_one.1 h)
    exact hback.mono fun e he => List.mem_append_right _ (List.mem_append_right _ he)

end Calls

namespace Web.Connection

/-! ## Removals -/

/-- **A removal by name** — how it ends, and its exchanges. -/
def removal (c : Connection) (replier : Exchanges.Replier σ) (s : σ) (name : String) :
    Except Error Effect × List (Request × Reply) :=
  let (result, _, log) := ((Action.deleteProject name).perform c.profile).run
    (c.serve (Exchanges.recorded replier)) (s, [])
  (result, log)

/-- The record of a removal. -/
theorem leads_removal (c : Connection) (replier : Exchanges.Replier σ) (s : σ) (name : String) :
    ((Action.deleteProject name).perform c.profile).Leads c (c.removal replier s name).2
      (c.removal replier s name).1 := by
  obtain ⟨new, hnew, hleads⟩ := Calls.leads_run (c := c) replier
    ((Action.deleteProject name).perform c.profile) s []
  have hlog : (c.removal replier s name).2 = new := hnew
  rw [hlog]
  exact hleads

/-- What is done with what the lookup of a removal came to. -/
theorem of_leads_removal {name : String} {result : Except Error Effect}
    (h : ((Action.deleteProject name).perform c.profile).Leads c log result) :
    (log = [] ∧ ∃ e, result = .error e)
      ∨ ∃ request reply rest, c.request? .get (c.lookupPath name) [] none = some request
        ∧ log = (request, reply) :: rest
        ∧ ((c.TakenForGone name reply ∧ rest = [] ∧ result = .ok .none)
          ∨ (∃ p, Counts (c.toldOf name · = .ok p) reply
            ∧ ((c.profile.delete p).andThen fun _ => .done (.ok .none)).Leads c rest result)
          ∨ ¬ c.TakenForGone name reply ∧ ∃ e, result = .error e) := by
  obtain ⟨answer, front, back, rfl, hlookup, h⟩ := h
  have hfailed : ∀ {e : Error}, e.kind ≠ .notFound → answer = .error e →
      back = [] ∧ result = .error e := by
    rintro (_ | _ | _ | _) he rfl
    · exact absurd rfl he
    all_goals exact h
  rcases leads_lookup hlookup with ⟨rfl, e, rfl, he⟩ | ⟨request, reply, hrequest, rfl, hlooked⟩
  · obtain ⟨rfl, rfl⟩ := hfailed he rfl
    exact .inl ⟨rfl, e, rfl⟩
  · refine .inr ⟨request, reply, back, hrequest, rfl, ?_⟩
    rcases hlooked with hcounts | htaken | ⟨he, hnot⟩
    · exact .inr (.inl ⟨_, hcounts, h⟩)
    · exact .inl ⟨htaken, h⟩
    · exact .inr (.inr ⟨hnot, _, (hfailed he rfl).2⟩)

/-- A reply that tells the project is not taken for a word that there is none. -/
theorem not_takenForGone_of_told {name : String} {reply : Reply} {p : Project}
    (h : Counts (c.toldOf name · = .ok p) reply) : ¬ c.TakenForGone name reply := by
  intro htaken
  rcases takenForGone_iff.1 htaken with ⟨body, hbody⟩ | hcounts
  · exact h.ne_missing body hbody
  · rcases reply with _ | ⟨status, body⟩
    · exact h
    · obtain ⟨e, he⟩ := hcounts.2.2
      exact nomatch he.symm.trans h.2.2

/-- **What stands behind a removal that is reported as done**: the reply to its lookup was taken for
a word that the project is absent, or told the project, which then was deleted, and every reply
counted. And every reply to the lookup that is taken for such a word is reported as a removal, with
nothing sent after it. -/
theorem removal_reported (c : Connection) (replier : Exchanges.Replier σ) (s : σ) (name : String) :
    (∀ effect, (c.removal replier s name).1 = .ok effect → ∃ request reply rest,
      c.request? .get (c.lookupPath name) [] none = some request
        ∧ (c.removal replier s name).2 = (request, reply) :: rest
        ∧ (c.TakenForGone name reply ∧ rest = []
          ∨ ∃ p, Counts (c.toldOf name · = .ok p) reply ∧ (p.name = name ∨ c.Named p reply)
            ∧ c.Deletes p.name rest ∧ ∀ e ∈ rest, Counts (fun _ => True) e.2))
    ∧ ∀ request reply rest, (c.removal replier s name).2 = (request, reply) :: rest →
      c.TakenForGone name reply → rest = [] ∧ (c.removal replier s name).1 = .ok .none := by
  have hleads := c.leads_removal replier s name
  generalize (c.removal replier s name).1 = result at hleads ⊢
  generalize (c.removal replier s name).2 = log at hleads ⊢
  rcases of_leads_removal hleads with ⟨rfl, e, rfl⟩ | ⟨request, reply, rest, hrequest, rfl, h⟩
  · exact ⟨fun _ h => (nomatch h), fun _ _ _ h => (nomatch h)⟩
  refine ⟨?_, ?_⟩
  · rintro effect rfl
    refine ⟨request, reply, rest, hrequest, rfl, ?_⟩
    rcases h with ⟨htaken, rfl, -⟩ | ⟨p, hcounts, h⟩ | ⟨-, e, he⟩
    · exact .inl ⟨htaken, rfl⟩
    · obtain ⟨_, front, back, rfl, hdelete, rfl, -⟩ := h.andThen_ok
      rw [List.append_nil]
      exact .inr ⟨p, hcounts, named_of_told hcounts, Calls.deletes_of_delete hdelete,
        Calls.strict_delete _ _ _ _ hdelete⟩
    · cases he
  · intro _ _ _ hlog htaken
    obtain ⟨⟨rfl, rfl⟩, rfl⟩ := (List.cons.inj hlog).imp_left Prod.mk.inj
    rcases h with ⟨-, hrest, hdone⟩ | ⟨p, hcounts, -⟩ | ⟨hnot, -⟩
    · exact ⟨hrest, hdone⟩
    · exact absurd htaken (not_takenForGone_of_told hcounts)
    · exact absurd htaken hnot

/-- A peer that answers for a project with a page for people. -/
def pageForPeople : Peer :=
  .scripted (.ofList [("GET https://hub.example.com/api/v2.0/projects/p",
    [.answered 200 "<html>maintenance</html>"])]) Peer.nothingThere

theorem removal_reported_unread :
    (guardedHub.removal Peer.reply pageForPeople "p").1 = .ok .none
      ∧ ∃ request reply rest,
        guardedHub.request? .get (guardedHub.lookupPath "p") [] none = some request
        ∧ (guardedHub.removal Peer.reply pageForPeople "p").2 = (request, reply) :: rest
        ∧ (guardedHub.TakenForGone "p" reply ∧ rest = []
          ∨ ∃ p, Counts (guardedHub.toldOf "p" · = .ok p) reply
            ∧ (p.name = "p" ∨ guardedHub.Named p reply)
            ∧ guardedHub.Deletes p.name rest ∧ ∀ e ∈ rest, Counts (fun _ => True) e.2) := by
  have hdone : (guardedHub.removal Peer.reply pageForPeople "p").1 = .ok .none := by decide +kernel
  exact ⟨hdone, (removal_reported guardedHub Peer.reply pageForPeople "p").1 .none hdone⟩

/-- **A page for people is taken for a word that the project is gone** — the removal is reported as
done although nothing was deleted and no reply said that there is no such project. -/
theorem removal_unsaid :
    (guardedHub.removal Peer.reply pageForPeople "p").1 = .ok .none
      ∧ ((guardedHub.removal Peer.reply pageForPeople "p").2.map fun e => (e.1.method, e.2))
        = [(.get, .answered 200 "<html>maintenance</html>")]
      ∧ ¬ guardedHub.SaysGone "p" (.answered 200 "<html>maintenance</html>") := by
  refine ⟨by decide +kernel, by decide +kernel, fun h => ?_⟩
  rcases h with _ | ⟨-, -, listed, hlists, -⟩
  rcases hlists with ⟨hvendor, -⟩ | ⟨hvendor, -⟩ <;> cases hvendor

end Web.Connection

end RegistryFleet
