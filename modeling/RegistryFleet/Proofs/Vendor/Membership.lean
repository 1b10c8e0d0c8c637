import RegistryFleet.Proofs.Vendor.Permission

/-!
# Proofs/Vendor/Membership — the members of a permission target are a finite map

The users of a permission target stand in a document that is read, changed and put back by every
change of one user. Against a peer that keeps what is put in place, a sequence of changes comes to a
finite map from names to roles: what the last change that succeeded made of a name.

* `Permission.read_data` — a permission target is read from what it is written as.
* `Exchanges.Stores` — a peer that keeps documents.
* `Connection.Enrolls` — what the peer holds after a sequence of changes.
* `Connection.membership_is_map` — what the members are after it.
-/

namespace RegistryFleet

open Json (Typed)
open Web (Connection Exchanges Peer Reply Request)

/-! ## Reading what was written -/

namespace Json.Typed

variable {α : Type}

theorem items_text_map : ∀ ss : List String, items text (ss.map Node.text) = .ok ss
  | [] => rfl
  | s :: ss => by
      rw [List.map_cons, items, items_text_map ss]
      rfl

/-- The entries of a map are read if each of them can be. -/
theorem exists_mapEntries {read : Typed α} : ∀ {fs : List (String × Node)} (m : Keyed α),
    (∀ f ∈ fs, ∃ a, read f.2 = .ok a) → ∃ m', mapEntries read m fs = .ok m'
  | [], m, _ => ⟨m, rfl⟩
  | (k, n) :: fs, m, h => by
      obtain ⟨⟨a, ha⟩, hfs⟩ := List.forall_mem_cons.1 h
      obtain ⟨m', hm'⟩ := exists_mapEntries (m.insert k a) hfs
      exact ⟨m', by rw [mapEntries, ha]; exact hm'⟩

/-- **A map is read from what it is written as.** -/
theorem map_written {read : Typed α} {f : α → Node} (hf : ∀ a, read (f a) = .ok a) (m : Keyed α) :
    map read (.record (m.entries.map fun e => (e.1, f e.2)) false) = .ok m := by
  have heach : ∀ e ∈ m.entries.map fun e => (e.1, f e.2), ∃ a, read e.2 = .ok a := fun e he => by
    obtain ⟨e, -, rfl⟩ := List.mem_map.1 he
    exact ⟨e.2, hf e.2⟩
  obtain ⟨m', hm'⟩ := exists_mapEntries .empty heach
  have hmap : map read (.record (m.entries.map fun e => (e.1, f e.2)) false) = .ok m' := by
    rw [map, hm']
    rfl
  rw [hmap]
  refine congrArg Except.ok (Keyed.ext_get? fun key => ?_)
  obtain ⟨fs, hfs, hkeys⟩ := of_map hmap
  obtain rfl := (Node.record.inj hfs).1
  have hkey := hkeys key
  rw [lastField?_of_increasing f key m.sorted] at hkey
  change m'.get? key = Keyed.lookUp? key m.entries
  rcases hkey with ⟨hnone, hget⟩ | ⟨n, a, hsome, hread, hget⟩
  · rw [hget, Option.map_eq_none_iff.1 hnone]
  · obtain ⟨b, hb, rfl⟩ := Option.map_eq_some_iff.1 hsome
    rw [hf] at hread
    rw [hget, hb, Except.ok.inj hread]

end Json.Typed

/-- A record that is written on one line does not begin with a mark. -/
theorem Web.Connection.withoutMark_compact_record (fs : List (String × Data)) :
    withoutMark (Json.compact (.record fs)) = Json.compact (.record fs) := by
  have hbrace : ∃ rest, (Json.compact (.record fs)).toList = '\x7b' :: rest := by
    rw [Json.compact, String.toList_append, String.toList_append]
    exact ⟨_, rfl⟩
  obtain ⟨rest, hrest⟩ := hbrace
  rw [withoutMark, hrest]
  rfl

namespace Artifactory

namespace Permission

theorem readPrincipals_data (p : Permission) :
    readPrincipals p.principalsData.node = .ok p.users := by
  have husers : Typed.map (.list .text) p.usersData.node = .ok p.users := by
    rw [usersData, Data.node, Data.fieldNodes_eq_map, List.map_map]
    refine Typed.map_written (f := fun actions => (Data.texts actions).node) (fun actions => ?_) _
    rw [Data.node_texts]
    exact Typed.items_text_map actions
  rw [readPrincipals_eq, principalsData, Data.node, Data.fieldNodes, Data.fieldNodes, Typed.record]
  simp only [Typed.fields, knownPrincipals, Typed.once, husers]
  rfl

/-- **A permission target is read from what it is written as.** -/
theorem read_data (p : Permission) : read p.data.node = .ok p := by
  have hrepositories : Typed.list .text (Data.texts p.repositories).node = .ok p.repositories := by
    rw [Data.node_texts]
    exact Typed.items_text_map p.repositories
  have hprincipals := readPrincipals_data p
  have hdata : p.data.node = .record [("name", .text p.name),
      ("includesPattern", .text p.includesPattern),
      ("repositories", (Data.texts p.repositories).node),
      ("principals", p.principalsData.node)] false := rfl
  rw [hdata, read_eq, Typed.record]
  simp only [Typed.fields, known, Typed.once, Typed.text, hrepositories, hprincipals]
  rfl

/-- **A permission target that was put in place is understood.** -/
theorem document_compact (p : Permission) :
    Connection.document (.optional read) none (Json.compact p.data) = some p :=
  Connection.document_of_ok (read_text (Json.ofText_compact (numberless_data p)) (read_data p))

/-- It does not begin with a mark. -/
theorem withoutMark_compact (p : Permission) :
    Connection.withoutMark (Json.compact p.data) = Json.compact p.data :=
  Connection.withoutMark_compact_record _

end Permission

/-! ## Roles -/

/-- The roles are told apart by their actions. -/
theorem roleOf_roles : ∀ r ∈ roles, roleOf r.2 = r.1 := by
  intro r hr
  simp only [roles, List.mem_cons, List.not_mem_nil, or_false] at hr
  rcases hr with rfl | rfl | rfl | rfl
  all_goals simp [roleOf, roles, sortActions, List.mergeSort]

/-- **The role of the actions that a role grants** is that role. -/
theorem roleOf_roleActions {role : String} {actions : List String}
    (h : roleActions role = .ok actions) : roleOf actions = role := by
  unfold roleActions at h
  split at h
  · next name granted hfind =>
    obtain rfl := Except.ok.inj h
    have hname := List.find?_some hfind
    exact (roleOf_roles _ (List.mem_of_find?_eq_some hfind)).trans (eq_of_beq hname)
  · cases h

end Artifactory

/-! ## A peer that keeps documents -/

namespace Web

open Connection (Counts)

variable {σ : Type} {replier : Exchanges.Replier σ} {held : σ → String → Option String}

/-- **A peer that keeps the documents** that are put in place, and gives them out where they are
asked for. -/
structure Exchanges.Stores (replier : Exchanges.Replier σ) (held : σ → String → Option String) :
    Prop where
  put : ∀ r s body, r.method = .put → r.body = some body →
    Counts (fun _ => True) (replier r s).1
      ∧ held (replier r s).2 r.url.requested = some (Json.compact body)
  get : ∀ r s text, r.method = .get → held s r.url.requested = some text →
    Counts (· = Connection.withoutMark text) (replier r s).1
      ∧ held (replier r s).2 r.url.requested = some text

/-- A record of the exchanges keeps nothing from being kept. -/
theorem Exchanges.Stores.recorded (h : Exchanges.Stores replier held) :
    Exchanges.Stores (Exchanges.recorded replier) fun s => held s.1 where
  put r s body := h.put r s.1 body
  get r s text := h.get r s.1 text

namespace Connection

variable {c : Connection} {method : Method} {path : String}
  {parameters : List (String × String)} {body : Option Data} {request : Request} {s : σ}

/-- What a request is does not depend on what it carries and what it is to do. -/
theorem request?_congr (h : c.request? method path parameters body = some request)
    (method' : Method) (body' : Option Data) :
    c.request? method' path parameters body'
      = some { request with method := method', body := body' } := by
  unfold request? at h ⊢
  split at h
  · cases h
  · simp only at h ⊢
    split at h
    · next hweb =>
      obtain rfl := Option.some.inj h
      exact if_pos hweb
    · cases h

/-- What is received of a reply that counts. -/
theorem received_of_counts {url full : Url} {text : String} :
    ∀ {reply : Reply}, Counts (· = text) reply → received url full reply = .ok text
  | .answered _ _, ⟨hlow, hhigh, htext⟩ => (if_pos ⟨hlow, hhigh⟩).trans (congrArg Except.ok htext)

/-- **An exchange whose reply counts.** -/
theorem run_send (subject : Subject) {text : String}
    (h : c.request? method path parameters body = some request)
    (hreply : Counts (· = text) (replier request s).1) :
    (c.send subject method path parameters body).run replier s
      = (.ok text, (replier request s).2) := by
  unfold request? at h
  unfold send
  rcases hurl : c.base.join path with fault | url
  · rw [hurl] at h
    cases h
  · rw [hurl] at h
    simp only at h ⊢
    split at h
    · next hweb =>
      obtain rfl := Option.some.inj h
      simp only [if_pos hweb, Exchanges.run, received_of_counts hreply]
    · cases h

/-- A document that is put in place at a peer that keeps it. -/
theorem run_put_stored (hstores : Exchanges.Stores replier held) (subject : Subject) {data : Data}
    (h : c.request? .put path [] (some data) = some request) :
    (c.put subject path (some data)).run replier s = (.ok (), (replier request s).2)
      ∧ held (replier request s).2 request.url.requested = some (Json.compact data) := by
  obtain ⟨hmethod, hbody⟩ := of_request? h
  obtain ⟨hreply, hheld⟩ := hstores.put request s data hmethod hbody
  refine ⟨?_, hheld⟩
  obtain ⟨text, htext⟩ : ∃ text, Counts (· = text) (replier request s).1 := by
    rcases hr : (replier request s).1 with _ | ⟨status, text⟩
    · rw [hr] at hreply
      exact hreply.elim
    · rw [hr] at hreply
      exact ⟨_, hreply.1, hreply.2.1, rfl⟩
  have hsend := run_send subject h htext
  have hok : ((c.send subject .put path [] (some data)).run replier s).1 = .ok text := by
    rw [hsend]
  rw [put, Exchanges.run_bind_ok hok, hsend]
  rfl

/-- A document that is asked for at a peer that keeps it. -/
theorem run_getDocument_stored {α : Type} (hstores : Exchanges.Stores replier held)
    (subject : Subject) (read : Typed α) (fallback : α) {text : String}
    (h : c.request? .get path [] none = some request)
    (hheld : held s request.url.requested = some text) :
    (c.getDocument subject path [] read fallback).run replier s
        = (.ok (document read fallback (withoutMark text)), (replier request s).2)
      ∧ held (replier request s).2 request.url.requested = some text := by
  obtain ⟨hreply, hkept⟩ := hstores.get request s text (of_request? h).1 hheld
  refine ⟨?_, hkept⟩
  have hsend := run_send subject h hreply
  have hok : ((c.send subject .get path [] none).run replier s).1 = .ok (withoutMark text) := by
    rw [hsend]
  rw [getDocument, Exchanges.run_bind_ok hok, hsend]
  rfl

end Connection

end Web

/-! ## Changes of one user -/

/-- **A change of one member** of a project. -/
inductive Edit
  | assign (member : Member)
  | unassign (member : Member)
  deriving DecidableEq

namespace Edit

open Artifactory (roleActions)

/-- The member that is changed. -/
def member : Edit → Member
  | assign m | unassign m => m

/-- The call that makes the change. -/
def call (project : Project) : Edit → Call
  | assign m => .assign project m
  | unassign m => .unassign project m

/-- **Can the change be made at all?** Its member is a user, and gets a role that is known. -/
def Allowed : Edit → Prop
  | assign m => m.type = .user ∧ ∃ actions, roleActions m.role = .ok actions
  | unassign m => m.type = .user

/-- **Can the change be made** where these users are bound? A user to be unbound is one of them. -/
def Possible (users : Keyed (List String)) (e : Edit) : Prop :=
  e.Allowed ∧ (e = .unassign e.member → users.contains e.member.name = true)

/-- The actions that the member may take after the change. -/
def granted : Edit → Option (List String)
  | assign m => (roleActions m.role).toOption
  | unassign _ => none

/-- **The last change of a name.** -/
def lastOn (name : String) (es : List Edit) : Option Edit :=
  es.reverse.find? fun e => e.member.name == name

variable {name : String} {e : Edit} {es : List Edit}

theorem lastOn_append : lastOn name (es ++ [e])
    = if e.member.name = name then some e else lastOn name es := by
  rw [lastOn, List.reverse_append, List.reverse_singleton, List.singleton_append, List.find?_cons]
  by_cases h : e.member.name = name
  · simp [h]
  · rw [beq_false_of_ne h, if_neg h]
    rfl

theorem of_lastOn (h : lastOn name es = some e) : e ∈ es ∧ e.member.name = name := by
  have hname := List.find?_some h
  exact ⟨List.mem_reverse.1 (List.mem_of_find?_eq_some h), eq_of_beq hname⟩

end Edit

namespace Artifactory

/-- The permission target of a project as it is created, with such users. -/
def target (c : Connection) (project : String) (users : Keyed (List String)) : Permission :=
  { newPermission c project with users := users }

end Artifactory

namespace Web.Connection

open Artifactory

variable {σ : Type} {replier : Exchanges.Replier σ} {held : σ → String → Option String}
  {c : Connection} {project : String} {get : Request} {users : Keyed (List String)} {s : σ}
  {m : Member}

/-- **The peer keeps the permission target** of a project, with these users, where it is asked
for. -/
structure Keeps (c : Connection) (held : σ → String → Option String) (project : String)
    (get : Request) (users : Keyed (List String)) (s : σ) : Prop where
  address : c.request? .get (permissionPath (permissionName c project)) [] none = some get
  document : held s get.url.requested = some (Json.compact (target c project users).data)

/-- The permission target is read. -/
theorem Keeps.run_permission (h : c.Keeps held project get users s)
    (hstores : Exchanges.Stores replier held) :
    (permission c project).run replier s = (.ok (target c project users), (replier get s).2)
      ∧ c.Keeps held project get users (replier get s).2 := by
  obtain ⟨hrun, hkept⟩ := run_getDocument_stored hstores
    (aboutPermission (permissionName c project)) (.optional Permission.read) none h.address
    h.document
  rw [Permission.withoutMark_compact, Permission.document_compact] at hrun
  refine ⟨?_, h.address, hkept⟩
  rw [permission, Exchanges.run_bind_ok (congrArg Prod.fst hrun), hrun]
  rfl

/-- The permission target is put in place with other users. -/
theorem Keeps.run_putPermission (h : c.Keeps held project get users s)
    (hstores : Exchanges.Stores replier held) (users' : Keyed (List String)) :
    ∃ s', (putPermission c (target c project users')).run replier s = (.ok (), s')
      ∧ c.Keeps held project get users' s' := by
  have hput := request?_congr h.address .put (some (target c project users').data)
  obtain ⟨hrun, hheld⟩ := run_put_stored (s := s) hstores
    (aboutPermission (permissionName c project)) hput
  exact ⟨_, hrun, h.address, hheld⟩

/-- **A user is bound.** -/
theorem Keeps.serve_assign (h : c.Keeps held project get users s)
    (hstores : Exchanges.Stores replier held) (hvendor : c.registry.vendor = .artifactory)
    (huser : m.type = .user) {actions : List String} (hrole : roleActions m.role = .ok actions) :
    ∃ s', c.serve replier (.assign (.named project) m) s = (.ok none, s')
      ∧ c.Keeps held project get (users.insert m.name actions) s' := by
  have hrequired : requireUser m = .ok () := if_pos huser
  obtain ⟨hrun, hkept⟩ := h.run_permission hstores
  obtain ⟨s', hput, hkept⟩ := hkept.run_putPermission hstores (users.insert m.name actions)
  refine ⟨s', ?_, hkept⟩
  simp only [serve, exchanges, hvendor, assign, hrequired, hrole, Project.named]
  change ((permission c project) >>= _).run replier s = _
  rw [Exchanges.run_bind_ok (congrArg Prod.fst hrun), hrun]
  exact (Exchanges.run_bind_ok (congrArg Prod.fst hput)).trans (by rw [hput]; rfl)

/-- **A user is unbound.** -/
theorem Keeps.serve_unassign (h : c.Keeps held project get users s)
    (hstores : Exchanges.Stores replier held) (hvendor : c.registry.vendor = .artifactory)
    (huser : m.type = .user) (hbound : users.contains m.name = true) :
    ∃ s', c.serve replier (.unassign (.named project) m) s = (.ok (), s')
      ∧ c.Keeps held project get (users.erase m.name) s' := by
  have hrequired : requireUser m = .ok () := if_pos huser
  obtain ⟨hrun, hkept⟩ := h.run_permission hstores
  obtain ⟨s', hput, hkept⟩ := hkept.run_putPermission hstores (users.erase m.name)
  refine ⟨s', ?_, hkept⟩
  simp only [serve, exchanges, hvendor, unassign, hrequired, Project.named]
  change ((permission c project) >>= _).run replier s = _
  rw [Exchanges.run_bind_ok (congrArg Prod.fst hrun), hrun]
  have hbound : (target c project users).users.contains m.name = true := hbound
  rw [if_pos hbound]
  exact hput

/-- **A user who is not bound is missed**, after the permission target has been asked for. -/
theorem Keeps.serve_unassign_absent (h : c.Keeps held project get users s)
    (hstores : Exchanges.Stores replier held) (hvendor : c.registry.vendor = .artifactory)
    (huser : m.type = .user) (hfree : users.contains m.name = false) :
    c.serve replier (.unassign (.named project) m) s
        = (.error (.notFound "member" m.name), (replier get s).2)
      ∧ c.Keeps held project get users (replier get s).2 := by
  have hrequired : requireUser m = .ok () := if_pos huser
  obtain ⟨hrun, hkept⟩ := h.run_permission hstores
  refine ⟨?_, hkept⟩
  simp only [serve, exchanges, hvendor, unassign, hrequired, Project.named]
  change ((permission c project) >>= _).run replier s = _
  rw [Exchanges.run_bind_ok (congrArg Prod.fst hrun), hrun]
  have hfree : ¬ (target c project users).users.contains m.name = true := by
    simpa [target] using hfree
  rw [if_neg hfree]
  rfl

/-- The members are those of the permission target. -/
theorem Keeps.serve_members (h : c.Keeps held project get users s)
    (hstores : Exchanges.Stores replier held) (hvendor : c.registry.vendor = .artifactory) :
    (c.serve replier (.members (.named project)) s).1
      = .ok (target c project users).members := by
  obtain ⟨hrun, -⟩ := h.run_permission hstores
  simp only [serve, exchanges, hvendor, members, Project.named]
  rw [Exchanges.run_bind_ok (congrArg Prod.fst hrun)]
  rfl

/-- **A change that cannot be made** asks nothing of the peer. -/
theorem exchanges_not_allowed (hvendor : c.registry.vendor = .artifactory) {e : Edit}
    (he : ¬ e.Allowed) (project : Project) : ∃ err, c.exchanges (e.call project) = .fail err := by
  cases e with
  | assign m =>
    simp only [Edit.call, exchanges, hvendor, assign]
    by_cases huser : m.type = .user
    · rw [requireUser, if_pos huser]
      rcases hrole : roleActions m.role with err | actions
      · exact ⟨err, rfl⟩
      · exact absurd ⟨huser, actions, hrole⟩ he
    · rw [requireUser, if_neg huser]
      exact ⟨_, rfl⟩
  | unassign m =>
    have huser : ¬ m.type = .user := he
    simp only [Edit.call, exchanges, hvendor, unassign]
    rw [requireUser, if_neg huser]
    exact ⟨_, rfl⟩

/-- **What a change comes to**: one that can be made succeeds and sets what is granted to its member,
any other fails and leaves the users as they are. -/
theorem Keeps.serve_edit (h : c.Keeps held project get users s)
    (hstores : Exchanges.Stores replier held) (hvendor : c.registry.vendor = .artifactory)
    (e : Edit) :
    (e.Possible users ∧ (c.serve replier (e.call (.named project)) s).1.isOk = true
        ∧ ∃ users', c.Keeps held project get users'
            (c.serve replier (e.call (.named project)) s).2
          ∧ ∀ name, users'.get? name
            = if name = e.member.name then e.granted else users.get? name)
      ∨ (¬ e.Possible users ∧ (c.serve replier (e.call (.named project)) s).1.isOk = false
        ∧ c.Keeps held project get users (c.serve replier (e.call (.named project)) s).2) := by
  by_cases he : e.Allowed
  · cases e with
    | assign m =>
      obtain ⟨huser, actions, hrole⟩ := id he
      obtain ⟨s', hserve, hkeeps⟩ := h.serve_assign hstores hvendor huser hrole
      rw [Edit.call, hserve]
      refine .inl ⟨⟨he, nofun⟩, rfl, _, hkeeps, fun name => ?_⟩
      rw [Keyed.get?_insert, Edit.granted, hrole]
      rfl
    | unassign m =>
      by_cases hbound : users.contains m.name = true
      · obtain ⟨s', hserve, hkeeps⟩ := h.serve_unassign hstores hvendor he hbound
        rw [Edit.call, hserve]
        refine .inl ⟨⟨he, fun _ => hbound⟩, rfl, _, hkeeps, fun name => ?_⟩
        rw [Keyed.get?_erase]
        rfl
      · obtain ⟨hserve, hkeeps⟩ := h.serve_unassign_absent hstores hvendor he
          ((Bool.not_eq_true _).mp hbound)
        rw [Edit.call, hserve]
        exact .inr ⟨fun hpossible => hbound (hpossible.2 rfl), rfl, hkeeps⟩
  · obtain ⟨err, hfail⟩ := exchanges_not_allowed hvendor he (.named project)
    rw [serve, hfail]
    exact .inr ⟨fun hpossible => he hpossible.1, rfl, h⟩

/-! ## Changes, one after another -/

/-- What a change makes of the peer, and of the record of the changes that succeeded. -/
def edit (c : Connection) (replier : Exchanges.Replier σ) (project : Project) (t : σ × List Edit)
    (e : Edit) : σ × List Edit :=
  let (answer, s) := c.serve replier (e.call project) t.1
  (s, if answer.isOk then t.2 ++ [e] else t.2)

theorem edit_eq (project : Project) (t : σ × List Edit) (e : Edit) :
    c.edit replier project t e = ((c.serve replier (e.call project) t.1).2,
      if (c.serve replier (e.call project) t.1).1.isOk then t.2 ++ [e] else t.2) := rfl

/-- **Changes in order**: the peer after them, and those that succeeded. -/
def edited (c : Connection) (replier : Exchanges.Replier σ) (project : Project) (es : List Edit)
    (s : σ) : σ × List Edit :=
  es.foldl (c.edit replier project) (s, [])

/-- **What the peer keeps after changes**: each user with what the last change that succeeded made
of him. -/
structure Enrolls (c : Connection) (held : σ → String → Option String) (project : String)
    (get : Request) (users : Keyed (List String)) (t : σ × List Edit) : Prop where
  keeps : c.Keeps held project get users t.1
  allowed : ∀ e ∈ t.2, e.Allowed
  last : ∀ name, users.get? name = (Edit.lastOn name t.2).bind Edit.granted

namespace Enrolls

variable {t : σ × List Edit} {e : Edit} {s' : σ} {users' : Keyed (List String)}

/-- A change that succeeded. -/
theorem succeeded (h : c.Enrolls held project get users t) (he : e.Allowed)
    (hkeeps : c.Keeps held project get users' s')
    (husers : ∀ name, users'.get? name
      = if name = e.member.name then e.granted else users.get? name) :
    c.Enrolls held project get users' (s', t.2 ++ [e]) where
  keeps := hkeeps
  allowed e' he' := by
    rcases List.mem_append.1 he' with he' | he'
    · exact h.allowed e' he'
    · exact List.mem_singleton.1 he' ▸ he
  last name := by
    rw [husers, Edit.lastOn_append]
    by_cases hname : name = e.member.name
    · rw [if_pos hname, if_pos hname.symm]
      rfl
    · rw [if_neg hname, if_neg (Ne.symm hname)]
      exact h.last name

/-- **One more change.** -/
theorem edit (h : c.Enrolls held project get users t) (hstores : Exchanges.Stores replier held)
    (hvendor : c.registry.vendor = .artifactory) (e : Edit) :
    ∃ users', c.Enrolls held project get users' (c.edit replier (.named project) t e) := by
  rcases h.keeps.serve_edit hstores hvendor e with
    ⟨hpossible, hok, users', hkeeps, husers⟩ | ⟨-, hfail, hkeeps⟩
  · rw [edit_eq, if_pos hok]
    exact ⟨users', h.succeeded hpossible.1 hkeeps husers⟩
  · rw [edit_eq, if_neg (ne_true_of_eq_false hfail)]
    exact ⟨users, hkeeps, h.allowed, h.last⟩

/-- **The members** are those whose last change that succeeded was a binding. -/
theorem mem_members (h : c.Enrolls held project get users t) (m : Member) :
    m ∈ (target c project users).members ↔ Edit.lastOn m.name t.2 = some (.assign m) := by
  have hentry : ∀ name actions, (name, actions) ∈ users.entries
      ↔ (Edit.lastOn name t.2).bind Edit.granted = some actions := fun name actions => by
    rw [← h.last, Keyed.mem_entries_iff users.sorted]
    rfl
  constructor
  · intro hm
    obtain ⟨⟨name, actions⟩, he, rfl⟩ := List.mem_map.1 hm
    obtain ⟨e, hlast, hgranted⟩ := Option.bind_eq_some_iff.1 ((hentry _ _).1 he)
    obtain ⟨hmem, hname⟩ := Edit.of_lastOn hlast
    cases e with
    | unassign m' => cases hgranted
    | assign m' =>
      obtain ⟨huser, actions', hrole⟩ := h.allowed _ hmem
      rw [Edit.granted, hrole] at hgranted
      obtain rfl : actions' = actions := Option.some.inj hgranted
      obtain ⟨_, _, _⟩ := m'
      obtain rfl := huser
      obtain rfl := hname
      simp only [roleOf_roleActions hrole]
      exact hlast
  · intro hlast
    obtain ⟨hmem, -⟩ := Edit.of_lastOn hlast
    obtain ⟨huser, actions, hrole⟩ := h.allowed _ hmem
    refine List.mem_map.2 ⟨(m.name, actions), (hentry _ _).2 ?_, ?_⟩
    · rw [hlast, Option.bind_some, Edit.granted, hrole]
      rfl
    · simp only [roleOf_roleActions hrole, ← huser]

end Enrolls

/-- **A project that has been created** has a permission target without users. -/
theorem keeps_created (hstores : Exchanges.Stores replier held)
    (hvendor : c.registry.vendor = .artifactory) {created : Project}
    (hcreated : (c.serve replier (.createProject project) s).1 = .ok created) :
    created = .named project
      ∧ ∃ get, c.Keeps held project get .empty (c.serve replier (.createProject project) s).2 := by
  have hleads := c.leads_exchanged replier s (.createProject project)
  rw [hcreated] at hleads
  simp only [serve, exchanges, hvendor, createProject] at hleads hcreated ⊢
  obtain ⟨_, front, back, -, hfolder, -⟩ := hleads.bind_ok
  obtain ⟨answer, hsends, hanswer⟩ := leads_put hfolder
  rcases answer with err | text
  · cases hanswer
  obtain ⟨folder, _, hrequest, -⟩ := hsends.of_ok
  obtain ⟨get, hget⟩ := Option.ne_none_iff_exists'.1 (request?_ne_none hrequest : c.request? .get
    (permissionPath (permissionName c project)) [] none ≠ none)
  obtain ⟨_, hfirst⟩ := Exchanges.ok_of_run_bind hcreated
  rw [Exchanges.run_bind_ok hfirst] at hcreated ⊢
  generalize ((c.put ⟨"project", project⟩ (folderPath c project ++ "/") none).run replier s).2 = s'
    at hcreated ⊢
  obtain ⟨hrun, hheld⟩ := run_put_stored (s := s') hstores
    (aboutPermission (permissionName c project))
    (request?_congr hget .put (some (target c project .empty).data))
  have hrun : (putPermission c (newPermission c project)).run replier s' = _ := hrun
  rw [Exchanges.run_bind_ok (congrArg Prod.fst hrun), hrun] at hcreated ⊢
  exact ⟨(Except.ok.inj hcreated).symm, get, hget, hheld⟩

namespace Enrolls

/-- **Changes in order**, from what the peer keeps. -/
theorem edited (hstores : Exchanges.Stores replier held)
    (hvendor : c.registry.vendor = .artifactory) :
    ∀ (es : List Edit) {users : Keyed (List String)} {t : σ × List Edit},
      c.Enrolls held project get users t →
      ∃ users', c.Enrolls held project get users' (es.foldl (c.edit replier (.named project)) t)
  | [], _, _, h => ⟨_, h⟩
  | e :: es, _, _, h =>
      let ⟨_, h'⟩ := h.edit hstores hvendor e
      edited hstores hvendor es h'

end Enrolls

/-- The members of a permission target are listed by name. -/
theorem members_increasing (p : Permission) : p.members.Pairwise (·.name < ·.name) :=
  List.pairwise_map.2 p.users.sorted

/-- Their names are those of its users. -/
theorem mem_members_names {p : Permission} {name : String} :
    name ∈ p.members.map Member.name ↔ p.users.contains name = true := by
  rw [Permission.members, List.map_map, Keyed.contains_iff, ← Keyed.mem_keys]
  rfl

/-- **Which change succeeds**: one that can be made. -/
theorem Keeps.isOk_serve_iff (h : c.Keeps held project get users s)
    (hstores : Exchanges.Stores replier held) (hvendor : c.registry.vendor = .artifactory)
    (e : Edit) :
    (c.serve replier (e.call (.named project)) s).1.isOk = true ↔ e.Possible users := by
  rcases h.serve_edit hstores hvendor e with ⟨hpossible, hok, -⟩ | ⟨hnot, hfail, -⟩
  · exact iff_of_true hok hpossible
  · exact iff_of_false (ne_true_of_eq_false hfail) hnot

/-- A user who is not bound is looked for, and nothing else. -/
theorem Keeps.exchanged_unassign_absent (h : c.Keeps held project get users s)
    (hstores : Exchanges.Stores replier held) (hvendor : c.registry.vendor = .artifactory)
    (huser : m.type = .user) (hfree : users.contains m.name = false) :
    c.exchanged replier s (.unassign (.named project) m) = [(get, (replier get s).1)] := by
  have hrecorded : c.Keeps (fun s => held s.1) project get users
      (s, ([] : List (Request × Reply))) := ⟨h.address, h.document⟩
  obtain ⟨hserve, -⟩ := hrecorded.serve_unassign_absent hstores.recorded hvendor huser hfree
  exact congrArg (fun run => run.2.2) hserve

/-- **Membership is a finite map**: against a peer that keeps the permission targets that are put
in place, once a project has been created and whatever changes of members were tried on it, the
members are, listed by name, one user for each name that the last change which succeeded bound,
with the role it bound him to. A change succeeds just if it can be made at all and a user to be
unbound is there; the change of another kind of member and a binding to an unknown role ask nothing
of the peer, and a user who is not there is missed without a write. -/
theorem membership_is_map (hvendor : c.registry.vendor = .artifactory)
    (hstores : Exchanges.Stores replier held) {created : Project}
    (hcreated : (c.serve replier (.createProject project) s).1 = .ok created) (es : List Edit) :
    let t := c.edited replier created es (c.serve replier (.createProject project) s).2
    ∃ ms, (c.serve replier (.members created) t.1).1 = .ok ms
      ∧ ms.Pairwise (·.name < ·.name)
      ∧ (∀ m ∈ ms, m.type = .user)
      ∧ (∀ m, m ∈ ms ↔ Edit.lastOn m.name t.2 = some (.assign m))
      ∧ (∀ e : Edit, (c.serve replier (e.call created) t.1).1.isOk
          ↔ e.Allowed ∧ (e = .unassign e.member → e.member.name ∈ ms.map Member.name))
      ∧ (∀ e : Edit, ¬ e.Allowed → c.exchanged replier t.1 (e.call created) = [])
      ∧ ∀ m : Member, m.type = .user → m.name ∉ ms.map Member.name →
          (c.serve replier (.unassign created m) t.1).1 = .error (.notFound "member" m.name)
            ∧ ∀ x ∈ c.exchanged replier t.1 (.unassign created m), x.1.method ≠ .put := by
  obtain ⟨rfl, get, hcreation⟩ := keeps_created hstores hvendor hcreated
  obtain ⟨users, h⟩ : ∃ users, c.Enrolls held project get users
      (c.edited replier (.named project) es (c.serve replier (.createProject project) s).2) :=
    Enrolls.edited hstores hvendor es
      ⟨hcreation, fun _ he => absurd he List.not_mem_nil, fun _ => rfl⟩
  refine ⟨_, h.keeps.serve_members hstores hvendor, members_increasing _, fun m hm => ?_,
    h.mem_members, fun e => ?_, fun e he => ?_, fun m huser hfree => ?_⟩
  · obtain ⟨_, -, rfl⟩ := List.mem_map.1 hm
    rfl
  · rw [mem_members_names]
    exact h.keeps.isOk_serve_iff hstores hvendor e
  · obtain ⟨err, hfail⟩ := exchanges_not_allowed hvendor he (.named project)
    rw [exchanged, hfail]
    rfl
  · have hfree := (Bool.not_eq_true _).mp (mt mem_members_names.2 hfree)
    obtain ⟨hserve, -⟩ := h.keeps.serve_unassign_absent hstores hvendor huser hfree
    refine ⟨congrArg Prod.fst hserve, fun x hx => ?_⟩
    rw [h.keeps.exchanged_unassign_absent hstores hvendor huser hfree, List.mem_singleton] at hx
    rw [hx, (of_request? h.keeps.address).1]
    rintro ⟨⟩

/-- A peer with nothing but the documents that were put in place. -/
def shelf : Exchanges.Replier (Keyed String) := fun r held =>
  match r.method, r.body with
  | .put, some body =>
    (.answered 200 "", held.insert r.url.requested (Json.compact body))
  | .get, _ =>
    match held.get? r.url.requested with
    | some text => (.answered 200 text, held)
    | none => (.answered 404 "", held)
  | _, _ => (.answered 200 "", held)

theorem stores_shelf : Exchanges.Stores shelf fun held url => held.get? url where
  put r held body hmethod hbody := by
    simp only [shelf, hmethod, hbody, Keyed.get?_insert_self]
    exact ⟨⟨by decide, by decide, trivial⟩, trivial⟩
  get r held text hmethod hheld := by
    simp only [shelf, hmethod, hheld]
    exact ⟨⟨by decide, by decide, rfl⟩, trivial⟩

/-- A user is bound, a robot and one with an unknown role are not. -/
def tries : List Edit :=
  [.assign ana, .assign ⟨"ci", .robot, "Viewer"⟩, .assign ⟨"ana", .user, "King"⟩]

theorem membership_is_map_tries :
    let t := mirror.edited shelf (.named "p") tries
      (mirror.serve shelf (.createProject "p") .empty).2
    (mirror.serve shelf (.createProject "p") .empty).1 = .ok (.named "p")
      ∧ ∃ ms, (mirror.serve shelf (.members (.named "p")) t.1).1 = .ok ms
        ∧ ana ∈ ms ∧ ∀ m ∈ ms, m.name ≠ "ci" := by
  have hcreated : (mirror.serve shelf (.createProject "p") .empty).1 = .ok (.named "p") := by
    decide +kernel
  have hlast : (mirror.edited shelf (.named "p") tries
      (mirror.serve shelf (.createProject "p") .empty).2).2 = [.assign ana] := by
    decide +kernel
  obtain ⟨ms, hmembers, -, -, hmem, -⟩ := membership_is_map rfl stores_shelf hcreated tries
  refine ⟨hcreated, ms, hmembers, (hmem _).2 ?_, fun m hm hname => ?_⟩
  · rw [hlast]
    decide
  · have hm := (hmem m).1 hm
    rw [hlast, hname] at hm
    cases hm

end Web.Connection

end RegistryFleet
