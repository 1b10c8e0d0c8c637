import RegistryFleet.Backend.Deletion
import RegistryFleet.Proofs.Backend.Memory
import RegistryFleet.Proofs.Web.Connection
import RegistryFleet.Vendor.Adapter
import RegistryFleet.Web.Peer

/-!
# Proofs/Vendor/Deletion — what a vendor has said before a project is deleted

A deletion that is not forced goes ahead only where the listing of the repositories comes back
empty. The listing is put together from replies, page by page, and a body that cannot be understood
counts as a page without items. So what precedes the first deletion is a run of replies none of
which names a repository; that each of them says that there is none is more than is checked.

* `Connection.deletionLog` — the exchanges of a deletion.
* `Connection.replies_of_deletion` — the replies that a deletion goes ahead on.
-/

namespace RegistryFleet

open Json (Typed)
open Web (Connection Exchanges Peer Reply Request Subject)

namespace Web

namespace Connection

variable {σ : Type} {c : Connection}

/-! ## What a vendor says -/

/-- **A body that can be understood**, and the repositories it names. -/
inductive Tells (c : Connection) (body : String) : List String → Prop
  | harbor {names : List String} (hvendor : c.registry.vendor = .harbor)
      (h : (Typed.list Harbor.readRepository).read body = .ok names) : Tells c body names
  | artifactory {children : List Artifactory.Child} (hvendor : c.registry.vendor = .artifactory)
      (h : Artifactory.readFolder.read body = .ok children) :
      Tells c body (Artifactory.folderNames children)

/-- **A reply that says that there is no repository.** -/
def SaysNone (c : Connection) (reply : Reply) : Prop := Counts (c.Tells · []) reply

/-- A body that names no repository: it may also be one that cannot be understood. -/
def NamesNone (c : Connection) (body : String) : Prop :=
  Text.allBlank body = true ∨ ∀ names, c.Tells body names → names = []

/-- The listing of the repositories of a project, at a vendor that has members. -/
theorem meets_repositories (hmembers : c.registry.vendor.hasMembers = true) (project : Project) :
    Exchanges.Meets (·.method = .get) (fun rs heard => rs = [] → Bare c.NamesNone heard) []
      (c.exchanges (.listRepositories project)) := by
  unfold exchanges
  cases hvendor : c.registry.vendor with
  | acr =>
    rw [hvendor] at hmembers
    cases hmembers
  | harbor =>
    refine .bind ((meets_pagesFrom _ _ _).mono fun names heard hnames hnil => ?_)
    obtain ⟨new, rfl, hbare⟩ := hnames
    refine (hbare (List.map_eq_nil_iff.1 hnil)).mono fun body hbody => .inr fun names' htells => ?_
    cases htells with
    | harbor _ h => exact (document_of_ok h).symm.trans hbody
    | artifactory hvendor' _ => cases hvendor.symm.trans hvendor'
  | artifactory =>
    refine .bind (.bind (meets_getDocument fun children reply hreply hnil => ?_))
    refine ⟨List.cons_ne_nil _ _, fun r hr => ?_⟩
    rw [List.mem_singleton.1 hr]
    refine hreply.mono fun body hbody => .inr fun names' htells => ?_
    cases htells with
    | harbor hvendor' _ => cases hvendor.symm.trans hvendor'
    | artifactory _ h =>
      have hread : Artifactory.folderNames children = [] := List.map_eq_nil_iff.1 hnil
      rwa [← hbody, document_of_ok h] at hread

/-- A removal sends nothing but deletions. -/
theorem meets_removeProject (project : Project) :
    Exchanges.Meets (·.method = .delete) (fun _ _ => True) []
      (c.exchanges (.removeProject project)) := by
  unfold exchanges
  split
  · exact meets_delete
  · trivial
  · exact .bind (meets_delete.mono fun _ _ _ => meets_delete.mapError)

/-! ## Deletions -/

/-- **The exchanges of a deletion**, in order. -/
def deletionLog (c : Connection) (replier : Exchanges.Replier σ) (s : σ) (project : Project) :
    List (Request × Reply) :=
  ((c.profile.delete project).run (c.serve (Exchanges.recorded replier)) (s, [])).2.2

/-- **The replies that a deletion goes ahead on** — without forced deletion nothing is deleted
before a listing, every page of which counts and names no repository. -/
theorem replies_of_deletion
    (hvendor : c.registry.vendor = .harbor ∨ c.registry.vendor = .artifactory)
    (hforce : c.registry.options.forceDelete = false) (replier : Exchanges.Replier σ) (s : σ)
    (project : Project)
    (hdeletes : ∃ e ∈ c.deletionLog replier s project, e.1.method = .delete) :
    ∃ listing deletion, c.deletionLog replier s project = listing ++ deletion
      ∧ (∀ e ∈ listing, e.1.method = .get) ∧ (∀ e ∈ deletion, e.1.method = .delete)
      ∧ Bare c.NamesNone (listing.map Prod.snd) := by
  have hmembers : c.registry.vendor.hasMembers = true := by
    rcases hvendor with hvendor | hvendor <;> rw [hvendor] <;> rfl
  obtain ⟨listing, hlog, hget, hbare⟩ :=
    (meets_repositories hmembers project).run replier s []
  have hnone : ¬ ∃ e ∈ listing, e.1.method = .delete := by
    rintro ⟨e, he, hdelete⟩
    rw [hget e he] at hdelete
    cases hdelete
  rw [List.nil_append] at hlog hbare
  unfold deletionLog at hdeletes ⊢
  rw [Profile.delete, Calls.run_andThen, Calls.run_one, serve] at hdeletes ⊢
  rcases hlisted : (c.exchanges (.listRepositories project)).run (Exchanges.recorded replier)
    (s, []) with ⟨answer, s', log⟩
  rw [hlisted] at hlog hbare hdeletes
  obtain rfl : log = listing := hlog
  cases answer with
  | error e => exact absurd hdeletes hnone
  | ok repositories =>
    cases repositories with
    | nil =>
      obtain ⟨deletion, hlog', hdelete, -⟩ := (meets_removeProject project).run replier s' log
      exact ⟨log, deletion, hlog', hget, hdelete, hbare [] rfl rfl⟩
    | cons r rest =>
      simp only [profile, hforce] at hdeletes
      exact absurd hdeletes hnone

/-- A connection without forced deletion. -/
def guardedHub : Connection where
  registry := ⟨"hub", "https://hub.example.com", ⟨"admin", "pw"⟩, .harbor, .leaf, ⟨false, none⟩,
    .empty⟩
  base := ⟨"https", "", some "hub.example.com", none, .segments [""], none, none⟩
  userAgent := ClientSettings.standard.userAgent
  pageSize := ClientSettings.standard.pageSize
  pageLimit := pagesCountable

/-- A peer that answers for the repositories of a project with a page for people. -/
def underMaintenance : Peer :=
  .scripted (.ofList
    [("GET https://hub.example.com/api/v2.0/projects/p/repositories?page=1&page_size=100",
      [.answered 200 "<html>maintenance</html>"])]) Peer.nothingThere

theorem replies_of_deletion_maintenance :
    ∃ listing deletion,
      guardedHub.deletionLog Peer.reply underMaintenance (.named "p") = listing ++ deletion
      ∧ (∀ e ∈ listing, e.1.method = .get) ∧ (∀ e ∈ deletion, e.1.method = .delete)
      ∧ Bare guardedHub.NamesNone (listing.map Prod.snd) :=
  replies_of_deletion (.inl rfl) rfl Peer.reply underMaintenance (.named "p") (by decide +kernel)

/-- **A page for people is taken for an empty listing** — the project is deleted although no reply
said that it owns no repository. -/
theorem deletion_unsaid :
    guardedHub.registry.options.forceDelete = false
      ∧ (∃ e ∈ guardedHub.deletionLog Peer.reply underMaintenance (.named "p"),
          e.1.method = .delete)
      ∧ ∃ e ∈ guardedHub.deletionLog Peer.reply underMaintenance (.named "p"),
          e.1.method = .get ∧ ¬ guardedHub.SaysNone e.2 := by
  have hlog : (guardedHub.deletionLog Peer.reply underMaintenance (.named "p")).map
      (fun e => (e.1.method, e.2))
        = [(.get, .answered 200 "<html>maintenance</html>"), (.delete, Peer.nothingThere)] := by
    decide +kernel
  have hunread : ((Typed.list Harbor.readRepository).read "<html>maintenance</html>").toOption
      = none := by decide +kernel
  have hexchange : ∀ method reply, (method, reply) ∈ [(Method.get,
      Reply.answered 200 "<html>maintenance</html>"), (.delete, Peer.nothingThere)] →
        ∃ e ∈ guardedHub.deletionLog Peer.reply underMaintenance (.named "p"),
          e.1.method = method ∧ e.2 = reply := by
    intro method reply hmem
    rw [← hlog] at hmem
    obtain ⟨e, he, heq⟩ := List.mem_map.1 hmem
    exact ⟨e, he, congrArg Prod.fst heq, congrArg Prod.snd heq⟩
  refine ⟨rfl, ?_, ?_⟩
  · obtain ⟨e, he, hdelete, -⟩ := hexchange .delete Peer.nothingThere (by simp)
    exact ⟨e, he, hdelete⟩
  · obtain ⟨e, he, hget, hreply⟩ := hexchange .get _ List.mem_cons_self
    refine ⟨e, he, hget, fun hsays => ?_⟩
    rw [hreply] at hsays
    obtain ⟨-, -, htells⟩ := hsays
    generalize hnames : ([] : List String) = names at htells
    cases htells with
    | harbor _ h =>
      rw [show withoutMark "<html>maintenance</html>" = "<html>maintenance</html>" from rfl] at h
      rw [h] at hunread
      cases hunread
    | artifactory hvendor _ => cases hvendor

end Connection

end Web

end RegistryFleet
