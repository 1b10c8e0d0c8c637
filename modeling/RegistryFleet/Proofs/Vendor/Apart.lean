import RegistryFleet.Fleet.Snapshot
import RegistryFleet.Proofs.Vendor.Lookup
import RegistryFleet.Proofs.Vendor.Permission
import RegistryFleet.Proofs.Web.Segment

/-!
# Proofs/Vendor/Apart — requests for different projects

What is asked for a project goes to a path with the project's name in it: behind one of a few stems
that depend on the vendor, and in front of a tail that says what of the project is meant. The name
is put there as it is. So the addresses of two projects differ just where their names are spelled
differently, as long as each name stays one segment of the path.

* `Connection.Asks` — a request for a project, and one for all projects.
* `Connection.only_harbor`, `Connection.asks_artifactory` — where the requests of a call go.
* `Connection.requests_apart` — whose requests have which addresses.
-/

namespace RegistryFleet

open Web (Connection Exchanges Method Peer Reply Request Subject Url)

namespace Web.Exchanges

variable {α β : Type} {P : Request → Prop}

/-! ## What a tree sends -/

/-- **A tree that sends only requests of a kind**, whoever replies. -/
def Only (P : Request → Prop) (t : Exchanges α) : Prop :=
  ∀ log result, t.Leads log result → ∀ x ∈ log, P x.1

theorem only_pure {a : α} : Only P (pure a) := by
  rintro log result ⟨rfl, -⟩ x hx
  cases hx

theorem only_fail {e : Error} : Only P (fail e : Exchanges α) := by
  rintro log result ⟨rfl, -⟩ x hx
  cases hx

theorem only_ofExcept {r : Except Error α} : Only P (ofExcept r) := by
  intro log result h x hx
  rw [(leads_ofExcept.1 h).1] at hx
  cases hx

/-- The second part of a sequence has the value of the first to go on. -/
theorem Only.bind {t : Exchanges α} {f : α → Exchanges β} (ht : Only P t)
    (hf : ∀ a log, t.Leads log (.ok a) → Only P (f a)) : Only P (t >>= f) := by
  intro log result h x hx
  rcases h.bind with ⟨e, hleads, -⟩ | ⟨a, front, back, rfl, hfront, hback⟩
  · exact ht _ _ hleads x hx
  · exact (List.mem_append.1 hx).elim (ht _ _ hfront x) (hf a front hfront _ _ hback x)

/-- A condition in front of a tree: without it nothing is sent. -/
theorem Leads.ofExcept_bind {r : Except Error α} {f : α → Exchanges β}
    {log : List (Request × Reply)} {result : Except Error β}
    (h : (ofExcept r >>= f).Leads log result) : log = [] ∨ ∃ a, (f a).Leads log result := by
  rcases h.bind with ⟨_, hr, -⟩ | ⟨a, front, back, rfl, hr, hf⟩
  all_goals obtain ⟨rfl, -⟩ := leads_ofExcept.1 hr
  · exact .inl rfl
  · exact .inr ⟨a, hf⟩

theorem Leads.of_mapError {f : Error → Error} :
    ∀ {t : Exchanges α} {log : List (Request × Reply)} {result : Except Error α},
      (t.mapError f).Leads log result → ∃ result', t.Leads log result'
  | .done _, _, _, h => ⟨_, h⟩
  | .fail e, _, _, h => ⟨.error e, h.1, rfl⟩
  | .send _ _, _, _, ⟨reply, rest, hlog, h⟩ =>
      let ⟨result', h'⟩ := Leads.of_mapError h
      ⟨result', reply, rest, hlog, h'⟩

theorem Only.mapError {f : Error → Error} {t : Exchanges α} (ht : Only P t) :
    Only P (t.mapError f) :=
  fun log _ h => let ⟨result', h'⟩ := h.of_mapError; ht log result' h'

end Web.Exchanges

namespace Web.Connection

open Exchanges (Only only_pure only_fail only_ofExcept)

variable {α σ : Type} {c : Connection} {P : Request → Prop} {subject : Subject} {method : Method}
  {path : String} {parameters : List (String × String)} {body : Option Data} {request : Request}
  {name : String}

/-- **One exchange sends one request**, to its path. -/
theorem only_send (hP : ∀ r, c.request? method path parameters body = some r → P r) :
    Only P (c.send subject method path parameters body) := by
  intro log result h x hx
  rcases leads_send h with _ | ⟨hrequest, -⟩
  · cases hx
  · rw [List.mem_singleton.1 hx]
    exact hP _ hrequest

theorem only_getDocument {read : Json.Typed α} {fallback : α}
    (hP : ∀ r, c.request? .get path parameters none = some r → P r) :
    Only P (c.getDocument subject path parameters read fallback) :=
  (only_send hP).bind fun _ _ _ => only_pure

theorem only_pagesFrom {item : Json.Typed α}
    (hP : ∀ r parameters, c.request? .get path parameters none = some r → P r) :
    ∀ {left page : Nat}, Only P (c.pagesFrom subject path item left page)
  | 0, _ => only_fail
  | left + 1, page => by
      refine (only_getDocument fun r => hP r _).bind fun batch _ _ => ?_
      split
      · exact only_pure
      · exact (only_pagesFrom hP).bind fun _ _ _ => only_pure

/-! ## Requests for a project -/

/-- **A request behind a stem**, for a name and what follows it. -/
def Reaches (c : Connection) (stem name : String) (r : Request) : Prop :=
  ∃ tail parameters body, Url.Steady tail
    ∧ c.request? r.method (stem ++ name ++ tail) parameters body = some r

/-- The path of what is for all projects. -/
def sharedPath (c : Connection) : String :=
  match c.registry.vendor with
  | .harbor => Harbor.projectsPath
  | .acr => Acr.catalogPath
  | .artifactory => Artifactory.storagePath c none

/-- **The stems** that the names of projects are put behind. -/
def stems (c : Connection) : List String :=
  match c.registry.vendor with
  | .harbor => [Harbor.projectsPath ++ "/"]
  | .acr => []
  | .artifactory => [Artifactory.storagePath c none ++ "/", Artifactory.folderPath c "",
      Artifactory.permissionPath (Artifactory.permissionName c "")]

/-- **A request for a project**, or one for all projects. -/
def Asks (c : Connection) (name : String) (r : Request) : Prop :=
  (∃ parameters body, c.request? r.method c.sharedPath parameters body = some r)
    ∨ ∃ stem ∈ c.stems, c.Reaches stem name r

theorem asks_shared (hpath : path = c.sharedPath)
    (h : c.request? method path parameters body = some request) : c.Asks name request :=
  .inl ⟨parameters, body, by rw [(of_request? h).1, ← hpath]; exact h⟩

theorem asks_behind (stem tail : String) (hstem : stem ∈ c.stems) (htail : Url.Steady tail)
    (hpath : path = stem ++ name ++ tail)
    (h : c.request? method path parameters body = some request) : c.Asks name request :=
  .inr ⟨stem, hstem, tail, parameters, body, htail, by
    rw [(of_request? h).1, ← hpath]
    exact h⟩

/-! ## Tails -/

theorem steady_fixed : ∀ tail ∈ ["", "/", "/repositories", "/members", "/robots"],
    Url.Steady tail := by
  intro tail htail
  simp only [List.mem_cons, List.not_mem_nil, or_false] at htail
  rcases htail with rfl | rfl | rfl | rfl | rfl
  · exact Url.steady_of_alphanum (.inl rfl) (by simp)
  all_goals exact Url.steady_of_alphanum (.inr ⟨_, rfl⟩) (by simp)

theorem steady_entry (id : Nat) : ∀ front ∈ ["/members", "/robots"],
    Url.Steady (front ++ ("/" ++ toString id)) := by
  intro front hfront
  have hdigits : ∀ d ∈ (toString id).toList, d.isAlphanum = true := fun d hd => by
    rw [Nat.toString_eq_repr, Nat.toList_repr] at hd
    have hdigit := Nat.isDigit_of_mem_toDigits (by decide) (by decide) hd
    simp [Char.isAlphanum, hdigit]
  have hplain : ∀ d ∈ front.toList, d = '/' ∨ d.isAlphanum = true := by
    simp only [List.mem_cons, List.not_mem_nil, or_false] at hfront
    rcases hfront with rfl | rfl <;> simp
  refine Url.steady_of_alphanum (.inr ?_) fun d hd => ?_
  · simp only [List.mem_cons, List.not_mem_nil, or_false] at hfront
    rcases hfront with rfl | rfl
    all_goals
      rw [String.toList_append]
      exact ⟨_, rfl⟩
  · rw [String.toList_append, String.toList_append] at hd
    rcases List.mem_append.1 hd with hd | hd
    · exact hplain d hd
    · rcases List.mem_append.1 hd with hd | hd
      · exact .inl (List.mem_singleton.1 hd)
      · exact .inr (hdigits d hd)

/-- What follows a project's name where one of its repositories is. -/
def repositoryTail (c : Connection) (short : String) : String :=
  match c.registry.vendor with
  | .harbor => "/repositories/" ++ String.ofList (Text.replaceChar '/' "%252F".toList short.toList)
  | _ => "/" ++ short

/-- **A call about a project** that stays below it: a repository is named after the project, and
what follows leads nowhere above. -/
def Within (c : Connection) (name : String) : Call → Prop
  | .deleteRepository r => r.project = name
      ∧ ∃ short, r.name = name ++ "/" ++ short ∧ Url.Steady (c.repositoryTail short)
  | call => call.concerns? = some name

/-! ## Where the requests of a call go -/

theorem append_entry (project front mark id : String) :
    project ++ front ++ mark ++ id = project ++ (front ++ (mark ++ id)) := by
  rw [String.append_assoc, String.append_assoc]

/-- An entry of a project is behind the project. -/
theorem leads_bindingPath {project : Project} {member : Member} {log : List (Request × Reply)}
    (h : (Harbor.bindingPath c project member).Leads log (.ok path)) :
    ∃ front ∈ ["/members", "/robots"], ∃ id : Nat,
      path = Harbor.projectPath project.name ++ (front ++ ("/" ++ toString id)) := by
  unfold Harbor.bindingPath at h
  split at h
  all_goals
    obtain ⟨found, front, back, -, -, h⟩ := h.bind_ok
    split at h
    swap
    · cases h.2
    obtain ⟨-, hpath⟩ := h
    rw [Except.ok.inj hpath]
  · exact ⟨"/robots", by decide, _, append_entry _ _ _ _⟩
  · exact ⟨"/members", by decide, _, append_entry _ _ _ _⟩

section Harbor

variable (hvendor : c.registry.vendor = .harbor)

include hvendor

/-- Every path about a project is behind the one stem. -/
theorem asks_harbor {tail : String} (htail : Url.Steady tail)
    (hpath : path = Harbor.projectPath name ++ tail)
    (h : c.request? method path parameters body = some request) : c.Asks name request :=
  asks_behind _ tail (by simp only [stems, hvendor]; exact List.mem_cons_self) htail hpath h

theorem only_harbor_project : Only (c.Asks name) (Harbor.project c name) :=
  (only_getDocument fun r => asks_harbor hvendor (steady_fixed "" (by decide))
    String.append_empty.symm).bind fun item _ _ => by
      split
      · exact only_pure
      · exact only_fail

theorem only_harbor_listing {item : Json.Typed α} (tail : String)
    (htail : tail ∈ ["/repositories", "/members", "/robots"]) :
    Only (c.Asks name) (c.listing subject (Harbor.projectPath name ++ tail) item) :=
  only_pagesFrom fun r parameters => asks_harbor hvendor (steady_fixed tail (by
    simp only [List.mem_cons] at htail ⊢
    exact .inr (.inr htail))) rfl

theorem only_harbor_assign (project : Project) (member : Member) :
    Only (c.Asks project.name) (Harbor.assign c project member) := by
  unfold Harbor.assign
  split
  · refine Only.bind ?_ fun _ _ _ => only_pure
    refine only_ofExcept.bind fun actions _ _ => Only.bind ?_ fun created _ _ => ?_
    · exact (only_send fun r => asks_harbor hvendor (steady_fixed "/robots" (by decide)) rfl).bind
        fun _ _ _ => only_pure
    · split
      · exact only_fail
      · exact only_pure
  · refine only_ofExcept.bind fun role _ _ => Only.bind ?_ fun _ _ _ => only_pure
    exact (only_send fun r => asks_harbor hvendor (steady_fixed "/members" (by decide)) rfl).bind
      fun _ _ _ => only_pure

theorem only_harbor_unassign (project : Project) (member : Member) :
    Only (c.Asks project.name) (Harbor.unassign c project member) := by
  refine Only.bind ?_ fun path log hpath => ?_
  · unfold Harbor.bindingPath
    split
    · refine (only_harbor_listing hvendor "/robots" (by decide)).bind fun _ _ _ => ?_
      split
      · exact only_pure
      · exact only_fail
    · refine (only_harbor_listing hvendor "/members" (by decide)).bind fun _ _ _ => ?_
      split
      · exact only_pure
      · exact only_fail
  · obtain ⟨front, hfront, id, hpath⟩ := leads_bindingPath hpath
    exact (only_send fun r => asks_harbor hvendor (steady_entry id front hfront) hpath).bind
      fun _ _ _ => only_pure

theorem only_harbor_deleteRepository {r : Repository} {short : String}
    (hproject : r.project = name) (hname : r.name = name ++ "/" ++ short)
    (hsteady : Url.Steady (c.repositoryTail short)) :
    Only (c.Asks name) (Harbor.deleteRepository c r) := by
  refine (only_send fun _ => asks_harbor hvendor hsteady ?_).bind fun _ _ _ => only_pure
  have hstrip : Text.stripMark? (name ++ "/") (name ++ "/" ++ short) = some short := by
    have hprefix : (name ++ "/").toList.isPrefixOf? (name ++ "/" ++ short).toList
        = some short.toList :=
      List.isPrefixOf?_eq_some_iff_append_eq.2 String.toList_append.symm
    rw [Text.stripMark?, hprefix, Option.map_some, String.ofList_toList]
  have htail : c.repositoryTail short = "/repositories" ++ ("/"
      ++ String.ofList (Text.replaceChar '/' "%252F".toList short.toList)) := by
    simp only [repositoryTail, hvendor]
    rw [← String.append_assoc]
    rfl
  rw [htail, ← String.append_assoc, ← String.append_assoc, Harbor.repositoryPath, hproject, hname,
    hstrip]
  rfl

/-- **Where a server with projects of its own is asked** about one of them. -/
theorem only_harbor {call : Call} (hcall : c.Within name call) :
    Only (c.Asks name) (c.exchanges call) := by
  cases call <;> simp only [Within, Call.concerns?, Option.some.injEq] at hcall
    <;> simp only [exchanges, hvendor]
  case listProjects => cases hcall
  case findProject =>
    subst hcall
    exact only_harbor_project hvendor
  case listRepositories project =>
    subst hcall
    exact (only_harbor_listing hvendor "/repositories" (by decide)).bind fun _ _ _ => only_pure
  case deleteRepository r =>
    obtain ⟨hproject, short, hname, hsteady⟩ := hcall
    exact only_harbor_deleteRepository hvendor hproject hname hsteady
  case removeProject project =>
    subst hcall
    exact (only_send fun r => asks_harbor hvendor (steady_fixed "" (by decide))
      String.append_empty.symm).bind fun _ _ _ => only_pure
  case createProject =>
    subst hcall
    refine Only.bind ?_ fun _ _ _ => only_harbor_project hvendor
    exact (only_send fun r => asks_shared (by simp only [sharedPath, hvendor])).bind
      fun _ _ _ => only_pure
  case members project =>
    subst hcall
    refine (only_harbor_listing hvendor "/members" (by decide)).bind fun _ _ _ => ?_
    exact (only_harbor_listing hvendor "/robots" (by decide)).bind fun _ _ _ => only_pure
  case assign project member =>
    subst hcall
    exact only_harbor_assign hvendor project member
  case unassign project member =>
    subst hcall
    exact only_harbor_unassign hvendor project member

end Harbor

section Artifactory

open Artifactory (Permission dockerRepository permissionName permissionPath folderPath storagePath)

theorem folderPath_nil (c : Connection) :
    folderPath c "" = "/artifactory/" ++ dockerRepository c ++ "/" := String.append_empty

theorem storagePath_none (c : Connection) :
    storagePath c none = "/artifactory/api/storage/" ++ dockerRepository c := String.append_empty

theorem permissionPath_nil (c : Connection) : permissionPath (permissionName c "")
    = "/artifactory/api/security/permissions/" ++ dockerRepository c ++ "_" :=
  (congrArg permissionPath String.append_empty).trans String.append_assoc.symm

/-- A folder is behind the docker repository, with all that is in it. -/
theorem folderPath_append (c : Connection) (name tail : String) :
    folderPath c (name ++ tail) = folderPath c "" ++ name ++ tail := by
  rw [folderPath_nil, String.append_assoc]
  rfl

/-- A project is behind the docker repository. -/
theorem storagePath_some (c : Connection) (name : String) :
    storagePath c (some name) = storagePath c none ++ "/" ++ name := by
  rw [storagePath_none, String.append_assoc]
  rfl

/-- A permission target is behind what the names of permission targets begin with. -/
theorem permissionPath_name (c : Connection) (name : String) :
    permissionPath (permissionName c name) = permissionPath (permissionName c "") ++ name := by
  have happend : ∀ s t, permissionPath (s ++ t) = permissionPath s ++ t := fun _ _ =>
    String.append_assoc.symm
  rw [permissionName, happend, happend, permissionPath_nil]
  rfl

/-- A reply that tells a permission target. -/
def TellsPermission (p : Permission) (reply : Reply) : Prop :=
  Counts (document (.optional Permission.read) none · = some p) reply

/-- **A reply that tells a permission target of another name** than the one asked for. -/
def Strays (c : Connection) (name : String) (log : List (Request × Reply)) : Prop :=
  c.registry.vendor = .artifactory ∧ ∃ x ∈ log, x.1.method = .get
    ∧ ∃ p, TellsPermission p x.2 ∧ p.name ≠ permissionName c name

variable (hvendor : c.registry.vendor = .artifactory)

include hvendor

theorem asks_folder {tail : String} (htail : Url.Steady tail)
    (hpath : path = folderPath c (name ++ tail))
    (h : c.request? method path parameters body = some request) : c.Asks name request :=
  asks_behind _ tail (by simp [stems, hvendor]) htail
    (hpath.trans (folderPath_append c name tail)) h

theorem asks_storage (hpath : path = storagePath c (some name))
    (h : c.request? method path parameters body = some request) : c.Asks name request :=
  asks_behind _ "" (by simp [stems, hvendor]) (steady_fixed "" (by decide))
    ((hpath.trans (storagePath_some c name)).trans String.append_empty.symm) h

theorem asks_permission (hpath : path = permissionPath (permissionName c name))
    (h : c.request? method path parameters body = some request) : c.Asks name request :=
  asks_behind _ "" (by simp [stems, hvendor]) (steady_fixed "" (by decide))
    ((hpath.trans (permissionPath_name c name)).trans String.append_empty.symm) h

theorem only_permission : Only (c.Asks name) (Artifactory.permission c name) :=
  (only_getDocument fun r => asks_permission hvendor rfl).bind fun p _ _ => by
    split
    · exact only_pure
    · exact only_fail

theorem only_artifactory_create : Only (c.Asks name) (Artifactory.createProject c name) := by
  refine Only.bind ?_ fun _ _ _ => Only.bind ?_ fun _ _ _ => only_pure
  · exact (only_send fun r => asks_folder hvendor (steady_fixed "/" (by decide))
      String.append_assoc).bind fun _ _ _ => only_pure
  · exact (only_send fun r => asks_permission hvendor rfl).bind fun _ _ _ => only_pure

theorem only_artifactory_remove (project : Project) :
    Only (c.Asks project.name) (Artifactory.removeProject c project) := by
  refine Only.bind ?_ fun _ _ _ => Only.mapError ?_
  · exact (only_send fun r => asks_folder hvendor (steady_fixed "" (by decide))
      (congrArg (folderPath c) String.append_empty.symm)).bind fun _ _ _ => only_pure
  · exact (only_send fun r => asks_permission hvendor rfl).bind fun _ _ _ => only_pure

omit hvendor in
/-- A permission target is what the reply tells. -/
theorem leads_permission {p : Permission} {log : List (Request × Reply)}
    (h : (Artifactory.permission c name).Leads log (.ok p)) :
    ∃ x ∈ log, x.1.method = .get ∧ TellsPermission p x.2 := by
  rcases leads_getDocument_bind h with ⟨_, -, he⟩ | ⟨text, front, back, rfl, hsends, htold⟩
  · cases he
  obtain ⟨get, reply, hget, rfl, hcounts⟩ := hsends.of_ok
  refine ⟨_, List.mem_append_left _ List.mem_cons_self, (of_request? hget).1, ?_⟩
  split at htold
  · next p' hp =>
    obtain rfl := Except.ok.inj htold.2
    exact hcounts.mono fun body hbody => hbody ▸ hp
  · cases htold.2

/-- **A permission target is put back where its reply says**, which is where it was asked for unless
the reply strays. -/
theorem asks_or_strays {f : Permission → Exchanges α} {log : List (Request × Reply)}
    {result : Except Error α}
    (hf : ∀ p, p.name = permissionName c name → Only (c.Asks name) (f p))
    (h : (Artifactory.permission c name >>= f).Leads log result) :
    (∀ x ∈ log, c.Asks name x.1) ∨ c.Strays name log := by
  rcases h.bind with ⟨e, hleads, -⟩ | ⟨p, front, back, rfl, hfront, hback⟩
  · exact .inl (only_permission hvendor _ _ hleads)
  by_cases hp : p.name = permissionName c name
  · refine .inl fun x hx => ?_
    exact (List.mem_append.1 hx).elim (only_permission hvendor _ _ hfront x)
      (hf p hp _ _ hback x)
  · obtain ⟨x, hx, hget, htells⟩ := leads_permission hfront
    exact .inr ⟨hvendor, x, List.mem_append_left _ hx, hget, p, htells, hp⟩

theorem only_putPermission {p : Permission} (hp : p.name = permissionName c name) :
    Only (c.Asks name) (Artifactory.putPermission c p) :=
  (only_send fun _ => asks_permission hvendor (congrArg permissionPath hp)).bind
    fun _ _ _ => only_pure

theorem asks_assign {project : Project} {member : Member} {log : List (Request × Reply)}
    {result : Except Error (Option Credentials)}
    (h : (Artifactory.assign c project member).Leads log result) :
    (∀ x ∈ log, c.Asks project.name x.1) ∨ c.Strays project.name log := by
  unfold Artifactory.assign at h
  rcases h.ofExcept_bind with rfl | ⟨_, h⟩
  · exact .inl fun x hx => absurd hx List.not_mem_nil
  rcases h.ofExcept_bind with rfl | ⟨actions, h⟩
  · exact .inl fun x hx => absurd hx List.not_mem_nil
  refine asks_or_strays hvendor (fun p hp => Only.bind ?_ fun _ _ _ => only_pure) h
  exact only_putPermission hvendor hp

theorem asks_unassign {project : Project} {member : Member} {log : List (Request × Reply)}
    {result : Except Error Unit} (h : (Artifactory.unassign c project member).Leads log result) :
    (∀ x ∈ log, c.Asks project.name x.1) ∨ c.Strays project.name log := by
  unfold Artifactory.unassign at h
  rcases h.ofExcept_bind with rfl | ⟨_, h⟩
  · exact .inl fun x hx => absurd hx List.not_mem_nil
  refine asks_or_strays hvendor (fun p hp => ?_) h
  split
  · exact only_putPermission hvendor hp
  · exact only_fail

/-- **Where a server whose projects are folders is asked** about one of them. -/
theorem asks_artifactory {call : Call} (hcall : c.Within name call)
    {log : List (Request × Reply)} {result : Except Error call.Result}
    (h : (c.exchanges call).Leads log result) :
    (∀ x ∈ log, c.Asks name x.1) ∨ c.Strays name log := by
  have honly : Only (c.Asks name) (c.exchanges call) → (∀ x ∈ log, c.Asks name x.1)
      ∨ c.Strays name log := fun honly => .inl (honly log result h)
  cases call <;> simp only [Within, Call.concerns?, Option.some.injEq] at hcall
    <;> simp only [exchanges, hvendor] at h honly
  case listProjects => cases hcall
  case findProject =>
    refine honly (Only.bind ?_ fun _ _ _ => only_ofExcept)
    refine Only.bind ?_ fun _ _ _ => only_pure
    exact (only_getDocument fun r => asks_shared (by simp only [sharedPath, hvendor])).bind
      fun _ _ _ => only_pure
  case listRepositories project =>
    subst hcall
    refine honly (Only.bind ?_ fun _ _ _ => only_pure)
    exact (only_getDocument fun r => asks_storage hvendor rfl).bind fun _ _ _ => only_pure
  case deleteRepository r =>
    obtain ⟨-, short, hname, hsteady⟩ := hcall
    refine honly ((only_send fun _ => asks_folder hvendor hsteady ?_).bind fun _ _ _ => only_pure)
    simp only [hname, repositoryTail, hvendor, String.append_assoc]
  case removeProject project =>
    subst hcall
    exact honly (only_artifactory_remove hvendor project)
  case createProject =>
    subst hcall
    exact honly (only_artifactory_create hvendor)
  case members project =>
    subst hcall
    exact honly ((only_permission hvendor).bind fun _ _ _ => only_pure)
  case assign project member =>
    subst hcall
    exact asks_assign hvendor h
  case unassign project member =>
    subst hcall
    exact asks_unassign hvendor h

end Artifactory

/-! ## Requests for different projects -/

/-- A text without marks between two others makes a stem. -/
theorem stem_around {front inner last : String} (hfront : ∃ rest, front.toList = '/' :: rest
      ∧ '?' ∉ rest ∧ '#' ∉ rest) (hinner : '?' ∉ inner.toList ∧ '#' ∉ inner.toList)
    (hlast : last = "/" ∨ last = "_") : Url.Stem (front ++ inner ++ last) := by
  obtain ⟨rest, hrest, hquery, hfragment⟩ := hfront
  obtain ⟨d, hd, hmark⟩ : ∃ d, last.toList = [d] ∧ (d = '/' ∨ d = '_') := by
    rcases hlast with rfl | rfl
    · exact ⟨'/', rfl, .inl rfl⟩
    · exact ⟨'_', rfl, .inr rfl⟩
  refine ⟨rest ++ inner.toList, d, ?_, hmark, ?_, ?_⟩
  · rw [String.toList_append, String.toList_append, hrest, hd]
    simp
  · simp [hquery, hinner.1]
  · simp [hfragment, hinner.2]

/-- **The stems are stems**, if the docker repository has no marks of a query or a fragment. -/
theorem stem_of_mem
    (hdocker : c.registry.vendor = .artifactory →
      '?' ∉ (Artifactory.dockerRepository c).toList ∧ '#' ∉ (Artifactory.dockerRepository c).toList)
    {stem : String} (h : stem ∈ c.stems) : Url.Stem stem := by
  unfold stems at h
  split at h
  · rw [List.mem_singleton.1 h]
    exact ⟨"api/v2.0/projects".toList, '/', rfl, .inl rfl, by decide, by decide⟩
  · cases h
  · next hvendor =>
    rw [storagePath_none, folderPath_nil, permissionPath_nil] at h
    simp only [List.mem_cons, List.not_mem_nil, or_false] at h
    rcases h with rfl | rfl | rfl
    · exact stem_around ⟨_, rfl, by decide, by decide⟩ (hdocker hvendor) (.inl rfl)
    · exact stem_around ⟨_, rfl, by decide, by decide⟩ (hdocker hvendor) (.inl rfl)
    · exact stem_around ⟨_, rfl, by decide, by decide⟩ (hdocker hvendor) (.inr rfl)

/-- **Names that are written as they are do not meet**: behind one stem, and whatever follows, no
request for the one goes where one for the other does. -/
theorem Reaches.apart {stem name' : String} {r r' : Request} (hstem : Url.Stem stem)
    (hname : Url.Literal name) (hname' : Url.Literal name') (hne : name ≠ name')
    (h : c.Reaches stem name r) (h' : c.Reaches stem name' r') :
    r.url.requested ≠ r'.url.requested := by
  obtain ⟨tail, parameters, body, htail, h⟩ := h
  obtain ⟨tail', parameters', body', htail', h'⟩ := h'
  exact fun heq => hne (hname.spelled_inj hname' (Url.spelled_of_requested hstem htail htail'
    (hname.holds tail) (hname'.holds tail') h h' heq))

/-- **Whose requests have which addresses.** A call about a project asks only behind the stems of
the vendor for this project, or for what all projects share, unless a reply strays to the permission
target of another. Behind a stem, the same request for two names that stay one segment has one
address just if the names are spelled alike; and names that are written as they are, if they differ,
have no address in common there, whatever is asked for. -/
theorem requests_apart
    (hvendor : c.registry.vendor = .harbor ∨ c.registry.vendor = .artifactory)
    (hdocker : c.registry.vendor = .artifactory →
      '?' ∉ (Artifactory.dockerRepository c).toList
        ∧ '#' ∉ (Artifactory.dockerRepository c).toList) :
    (∀ (σ : Type) (replier : Exchanges.Replier σ) (s : σ) (name : String) (call : Call),
        c.Within name call →
          (∀ x ∈ c.exchanged replier s call, c.Asks name x.1)
            ∨ c.Strays name (c.exchanged replier s call))
      ∧ (∀ stem ∈ c.stems, ∀ tail, Url.Steady tail → ∀ name name' : String,
          Url.Holds tail name → Url.Holds tail name' →
          ∀ method parameters body r body' r',
            c.request? method (stem ++ name ++ tail) parameters body = some r →
            c.request? method (stem ++ name' ++ tail) parameters body' = some r' →
            (r.url.requested = r'.url.requested ↔ Url.spelled tail name = Url.spelled tail name'))
      ∧ ∀ stem ∈ c.stems, ∀ name name' : String, Url.Literal name → Url.Literal name' →
          name ≠ name' → ∀ r r', c.Reaches stem name r → c.Reaches stem name' r' →
            r.url.requested ≠ r'.url.requested := by
  refine ⟨fun σ replier s name call hcall => ?_,
    fun stem hstem tail htail name name' hname hname' method parameters body r body' r' h h' => ?_,
    fun stem hstem name name' hname hname' hne r r' h h' => ?_⟩
  · have hleads := c.leads_exchanged replier s call
    rcases hvendor with hvendor | hvendor
    · exact .inl (only_harbor hvendor hcall _ _ hleads)
    · exact asks_artifactory hvendor hcall hleads
  · have hstem := stem_of_mem hdocker hstem
    exact ⟨Url.spelled_of_requested hstem htail htail hname hname' h h',
      Url.requested_of_spelled hstem htail hname hname' h h'⟩
  · exact h.apart (stem_of_mem hdocker hstem) hname hname' hne h'

theorem requests_apart_mirror : ∃ r r',
    mirror.request? .get (Artifactory.permissionPath "docker_p") [] none = some r
      ∧ mirror.request? .get (Artifactory.permissionPath "docker_100% p") [] none = some r'
      ∧ r.url.requested ≠ r'.url.requested := by
  have hname : Url.Literal "p" := ⟨by simp, by simp [Url.isEdge], by decide, by decide⟩
  have hname' : Url.Literal "100% p" := ⟨by simp, by simp [Url.isEdge], by decide, by decide⟩
  obtain ⟨-, -, hapart⟩ := requests_apart (c := mirror) (.inr rfl) fun _ => by decide
  have hreaches : ∀ name, ∃ r, mirror.request? .get
      (Artifactory.permissionPath (Artifactory.permissionName mirror name)) [] none = some r
        ∧ mirror.Reaches (Artifactory.permissionPath (Artifactory.permissionName mirror "")) name
          r := fun name => by
    have hsome : (mirror.request? .get (Artifactory.permissionPath
        (Artifactory.permissionName mirror name)) [] none).isSome = true :=
      isSome_request?_iff.2 ⟨⟨_, rfl⟩, rfl⟩
    obtain ⟨r, hr⟩ := Option.isSome_iff_exists.1 hsome
    refine ⟨r, hr, "", [], none, steady_fixed "" (by decide), ?_⟩
    rw [(of_request? hr).1, String.append_empty, ← permissionPath_name]
    exact hr
  obtain ⟨r, hr, hreach⟩ := hreaches "p"
  obtain ⟨r', hr', hreach'⟩ := hreaches "100% p"
  exact ⟨r, r', hr, hr', hapart _ (by simp [stems, mirror]) _ _ hname hname' (by decide) _ _ hreach
    hreach'⟩

/-- Where a call goes at a server that has nothing. -/
def asked (call : Call) : List String :=
  (guardedHub.exchanged Peer.reply (.scripted (.ofList []) Peer.nothingThere) call).map
    fun x => x.1.url.requested

/-- A name, and others that do not stay the segment they are. -/
def aliases : List String := ["p", "p ", "p#x", "q\\..\\p"]

/-- **Different names meet**: they may all stand in one checked snapshot, and what is looked up, and
deleted, for any of them is the first. -/
theorem requests_meet :
    (∃ projects : List ProjectSpec, projects.map ProjectSpec.name = aliases
        ∧ (Snapshot.mk [] projects).check = .ok ())
      ∧ ∀ name ∈ aliases, ∀ call ∈ [Call.findProject name, .removeProject (.named name)],
        asked call = ["https://hub.example.com/api/v2.0/projects/p"] := by
  constructor
  · exact ⟨aliases.map fun name => ⟨name, .everywhere, [], [], none⟩, rfl, rfl⟩
  · decide +kernel

end Web.Connection

end RegistryFleet
