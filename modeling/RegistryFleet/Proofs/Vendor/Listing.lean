import RegistryFleet.Proofs.Vendor.Adapter
import RegistryFleet.Proofs.Vendor.Deletion
import RegistryFleet.Proofs.Web.Segment

/-!
# Proofs/Vendor/Listing — a listing fails for a bad reply, and never for a bad body

Every listing is a row of exchanges, one for each page, and every exchange has the same three ends:
its reply succeeds, and then its body is taken for what it holds, or says with 404 that there is
nothing, or is some other refusal or none at all. The first reply that does not succeed ends the
row, so that the replies alone decide the result.

* `Connection.Open` — a connection that has an address for every path; to the web all have.
* `Connection.Decided` — how replies decide a result, and `Decides` that they do so for a tree.
* `Connection.decides_pagesFrom` — the pages of a listing are decided by their replies.
* `Connection.listing_decided` — so is every listing of every vendor.
-/

namespace RegistryFleet

open Json (Typed)
open Web (Connection Exchanges Peer Reply Request Subject Url)

namespace Web.Connection

variable {α β σ : Type} {c : Connection} {subject : Subject} {method : Method} {path : String}
  {parameters : List (String × String)} {body : Option Data} {log : List (Request × Reply)}

/-! ## Addresses -/

/-- **A connection that can be spoken over** — it has an address for every path and asks for
pages. -/
structure Open (c : Connection) : Prop where
  address : (∃ names, c.base.path = .segments names) ∧ c.base.isWeb = true
  pages : 0 < c.pageLimit

/-- A connection to an address of the web can be spoken over. -/
theorem open_of_ofRegistry {registry : Registry} {settings : ClientSettings}
    (h : ofRegistry registry settings = .ok c) (hweb : c.base.isWeb = true) :
    c.Open ∧ c.pageLimit = pagesCountable := by
  unfold ofRegistry at h
  split at h
  · cases h
  · next base hbase =>
    split at h
    · obtain rfl := Except.ok.inj h
      exact ⟨⟨⟨Url.segments_of_parse hbase hweb, hweb⟩, pagesCountable_pos⟩, rfl⟩
    · cases h

/-! ## Results that replies decide -/

/-- The reply has a status between 200 and 299, and any body. -/
abbrev Succeeds (reply : Reply) : Prop := Counts (fun _ => True) reply

/-- **The failure that a reply comes to** if it does not succeed: what was asked about is missing
for a 404, and else the operation may be tried again. -/
def Refuses (subject : Subject) : Reply → Error → Prop
  | .answered 404 _, e => e = .notFound subject.entity subject.name
  | _, e => ∃ reason, e = .recoverable reason

/-- A failure that may be tried again refuses every status but one. -/
theorem refuses_of_ne {status : Nat} {text reason : String} (h : status ≠ 404) :
    Refuses subject (.answered status text) (.recoverable reason) := by
  unfold Refuses
  split
  · next he => exact absurd (Reply.answered.inj he).1 h
  · exact ⟨reason, rfl⟩

/-- What is missing or may be tried again is no wrong configuration and no missing capability. -/
theorem Refuses.kind {e : Error} {reply : Reply} (h : Refuses subject reply e) :
    e.kind = .notFound ∨ e.kind = .recoverable := by
  unfold Refuses at h
  split at h
  · exact .inl (h ▸ rfl)
  · obtain ⟨reason, rfl⟩ := h
    exact .inr rfl

/-- **The replies decide the result**, by the first that does not succeed. -/
inductive Decided (subject : Subject) (limit : Nat) :
    List (Request × Reply) → Except Error α → Prop
  | granted {log : List (Request × Reply)} {a : α} (h : ∀ x ∈ log, Succeeds x.2) :
      Decided subject limit log (.ok a)
  | refused {front : List (Request × Reply)} {request : Request} {reply : Reply} {e : Error}
      (h : ∀ x ∈ front, Succeeds x.2) (hreply : ¬ Succeeds reply) (he : Refuses subject reply e) :
      Decided subject limit (front ++ [(request, reply)]) (.error e)
  /-- More pages are full than are asked for. -/
  | endless {log : List (Request × Reply)} (h : ∀ x ∈ log, Succeeds x.2)
      (hlimit : limit ≤ log.length) (path : String) :
      Decided subject limit log (.error (endless path))

variable {limit : Nat}

/-- A reply that does not succeed decides the result by itself. -/
theorem Decided.alone {request : Request} {reply : Reply} {e : Error} (hreply : ¬ Succeeds reply)
    (he : Refuses subject reply e) :
    Decided subject limit [(request, reply)] (.error e : Except Error α) :=
  @refused _ subject limit [] request reply e (List.forall_mem_nil _) hreply he

/-- A result is decided behind replies that succeed, which may be pages. -/
theorem Decided.behind {limit' : Nat} {front back : List (Request × Reply)}
    {result : Except Error α} (hfront : ∀ x ∈ front, Succeeds x.2)
    (hlimit : limit' ≤ front.length + limit) (h : Decided subject limit back result) :
    Decided subject limit' (front ++ back) result := by
  cases h with
  | granted h => exact .granted (List.forall_mem_append.2 ⟨hfront, h⟩)
  | refused h hreply he =>
    rw [← List.append_assoc]
    exact .refused (List.forall_mem_append.2 ⟨hfront, h⟩) hreply he
  | endless h hback path =>
    refine .endless (List.forall_mem_append.2 ⟨hfront, h⟩) ?_ path
    rw [List.length_append]
    exact Nat.le_trans hlimit (Nat.add_le_add_left hback _)

theorem Decided.of_ok {a : α} (h : Decided subject limit log (.ok a)) :
    ∀ x ∈ log, Succeeds x.2 := by
  cases h with
  | granted h => exact h

/-- A failure is a failure of any type. -/
theorem Decided.of_error {e : Error} (h : Decided subject limit log (.error e : Except Error α)) :
    Decided subject limit log (.error e : Except Error β) := by
  cases h with
  | refused h hreply he => exact .refused h hreply he
  | endless h hlimit path => exact .endless h hlimit path

/-- Where every reply succeeds, there is a value, unless there is no end of pages. -/
theorem Decided.of_succeeds {result : Except Error α} (h : Decided subject limit log result)
    (hlog : ∀ x ∈ log, Succeeds x.2) : (∃ a, result = .ok a)
      ∨ limit ≤ log.length ∧ ∃ path, result = .error (Connection.endless path) := by
  cases h with
  | granted h => exact .inl ⟨_, rfl⟩
  | refused h hreply he =>
    exact absurd (hlog _ (List.mem_append_right _ (List.mem_singleton_self _))) hreply
  | endless h hlimit path => exact .inr ⟨hlimit, path, rfl⟩

/-- A reply that does not succeed is the only one and the last, and decides the failure. -/
theorem Decided.of_refusal {front back : List (Request × Reply)} {request : Request}
    {reply : Reply} {result : Except Error α}
    (h : Decided subject limit (front ++ (request, reply) :: back) result)
    (hreply : ¬ Succeeds reply) :
    back = [] ∧ (∀ x ∈ front, Succeeds x.2) ∧ ∃ e, result = .error e ∧ Refuses subject reply e := by
  have hmem : (request, reply) ∈ front ++ (request, reply) :: back := by simp
  generalize hlog : front ++ (request, reply) :: back = log at h hmem
  cases h with
  | granted h => exact absurd (h _ hmem) hreply
  | endless h hlimit path => exact absurd (h _ hmem) hreply
  | @refused front' request' reply' e h hreply' he =>
    rcases List.eq_nil_or_concat back with rfl | ⟨back, last, rfl⟩
    · obtain ⟨rfl, hlast⟩ := List.append_inj' hlog rfl
      obtain ⟨rfl, rfl⟩ := Prod.mk.inj (List.cons.inj hlast).1
      exact ⟨rfl, h, e, rfl, he⟩
    · have hall : (front ++ (request, reply) :: back) ++ [last] = front' ++ [(request', reply')] := by
        simpa using hlog
      have hfront := (List.append_inj' hall rfl).1
      exact absurd (h (request, reply) (by simp [← hfront])) hreply

theorem Decided.kind {e : Error} (h : Decided subject limit log (.error e : Except Error α)) :
    e.kind = .notFound ∨ e.kind = .recoverable := by
  cases h with
  | refused h hreply he => exact he.kind
  | endless h hlimit path => exact .inr rfl

/-- **The replies decide what the tree comes to.** -/
def Decides (subject : Subject) (limit : Nat) (t : Exchanges α) : Prop :=
  ∀ log result, t.Leads log result → Decided subject limit log result

theorem decides_pure {a : α} : Decides subject limit (pure a) := by
  rintro log result ⟨rfl, rfl⟩
  exact .granted fun x hx => absurd hx List.not_mem_nil

theorem Decides.bind {t : Exchanges α} {f : α → Exchanges β} (ht : Decides subject limit t)
    (hf : ∀ a, Decides subject limit (f a)) : Decides subject limit (t >>= f) := by
  intro log result h
  rcases h.bind with ⟨e, ht', rfl⟩ | ⟨a, front, back, rfl, hfront, hback⟩
  · exact (ht _ _ ht').of_error
  · exact (hf a _ _ hback).behind (ht _ _ hfront).of_ok (Nat.le_add_left _ _)

/-- **A tree that asks**, and whose replies decide what it comes to. -/
structure Heeds (subject : Subject) (limit : Nat) (t : Exchanges α) : Prop where
  some : ∀ log result, t.Leads log result → log ≠ []
  decides : Decides subject limit t

/-- What follows on a tree that asks has one exchange in front of it. -/
theorem Heeds.bind {limit' : Nat} {t : Exchanges α} {f : α → Exchanges β}
    (ht : Heeds subject limit t) (hf : ∀ a, Decides subject limit' (f a))
    (hlimit : limit ≤ 1 + limit') : Heeds subject limit (t >>= f) := by
  refine ⟨fun log result h => ?_, fun log result h => ?_⟩
  · rcases h.bind with ⟨e, ht', -⟩ | ⟨a, front, back, rfl, hfront, -⟩
    · exact ht.some _ _ ht'
    · exact fun hnil => ht.some _ _ hfront (List.append_eq_nil_iff.1 hnil).1
  · rcases h.bind with ⟨e, ht', rfl⟩ | ⟨a, front, back, rfl, hfront, hback⟩
    · exact (ht.decides _ _ ht').of_error
    · have hone : 1 ≤ front.length := List.length_pos_of_ne_nil (ht.some _ _ hfront)
      exact (hf a _ _ hback).behind (ht.decides _ _ hfront).of_ok (by omega)

/-- What is made of the answer needs no exchange. -/
theorem Heeds.map {t : Exchanges α} {f : α → β} (ht : Heeds subject limit t) :
    Heeds subject limit (t >>= fun a => pure (f a)) :=
  ht.bind (fun _ => decides_pure) (Nat.le_add_left limit 1)

/-! ## Exchanges and listings -/

/-- A reply decides its exchange. -/
theorem decided_received {url full : Url} {request : Request} {rest : List (Request × Reply)}
    {result : Except Error String} : ∀ {reply : Reply}, (match received url full reply with
        | .ok text => Exchanges.done text
        | .error fault => .fail (fault.about subject)).Leads rest result →
      Decided subject limit ((request, reply) :: rest) result
  | .dropped, ⟨hrest, hresult⟩ => by
      subst hrest hresult
      exact .alone (fun h => h) ⟨_, rfl⟩
  | .answered status text, h => by
      rw [received] at h
      by_cases hstatus : 200 ≤ status ∧ status < 300
      · rw [if_pos hstatus] at h
        obtain ⟨rfl, rfl⟩ := h
        exact .granted (List.forall_mem_singleton.2 ⟨hstatus.1, hstatus.2, trivial⟩)
      · rw [if_neg hstatus] at h
        obtain ⟨rfl, rfl⟩ := h
        refine .alone (fun h => hstatus ⟨h.1, h.2.1⟩) ?_
        rw [ExchangeFault.about]
        by_cases hmissing : status = 404
        · subst hmissing
          rfl
        · rw [if_neg hmissing]
          exact refuses_of_ne hmissing

/-- **An exchange is decided by its reply.** -/
theorem heeds_send (hc : c.Open) :
    Heeds subject limit (c.send subject method path parameters body) := by
  have hsent : ∀ log result, (c.send subject method path parameters body).Leads log result →
      log ≠ [] ∧ Decided subject limit log result := by
    intro log result h
    have hsome : (c.request? method path parameters body).isSome = true :=
      isSome_request?_iff.2 hc.address
    unfold request? at hsome
    unfold send at h
    rcases hurl : c.base.join path with fault | url
    · rw [hurl] at hsome
      cases hsome
    · rw [hurl] at h hsome
      simp only at h hsome
      split at hsome
      · next hweb =>
        rw [if_pos hweb] at h
        obtain ⟨reply, rest, rfl, h⟩ := h
        exact ⟨List.cons_ne_nil _ _, decided_received h⟩
      · cases hsome
  exact ⟨fun log result h => (hsent log result h).1, fun log result h => (hsent log result h).2⟩

theorem heeds_getDocument (hc : c.Open) {read : Typed α} {fallback : α} :
    Heeds subject limit (c.getDocument subject path parameters read fallback) :=
  (heeds_send hc).map

/-- A page, and the pages behind it. -/
theorem heeds_pagesFrom (hc : c.Open) {item : Typed α} {left page : Nat}
    (h : Decides subject left (c.pagesFrom subject path item left (page + 1))) :
    Heeds subject (left + 1) (c.pagesFrom subject path item (left + 1) page) := by
  refine (heeds_getDocument hc).bind (fun batch => ?_) (Nat.le_of_eq (Nat.add_comm left 1))
  split
  · exact decides_pure
  · exact h.bind fun _ => decides_pure

/-- **The pages of a listing are decided by their replies**, one after the other. -/
theorem decides_pagesFrom (hc : c.Open) {item : Typed α} : ∀ left page : Nat,
    Decides subject left (c.pagesFrom subject path item left page)
  | 0, _ => by
      rintro log result ⟨rfl, rfl⟩
      exact .endless (fun x hx => absurd hx List.not_mem_nil) (Nat.le_refl 0) path
  | left + 1, page => (heeds_pagesFrom hc (decides_pagesFrom hc left (page + 1))).decides

theorem heeds_listing (hc : c.Open) {item : Typed α} :
    Heeds subject c.pageLimit (c.listing subject path item) := by
  unfold listing
  obtain ⟨left, hleft⟩ := Nat.exists_eq_add_of_lt hc.pages
  rw [hleft, Nat.zero_add]
  exact heeds_pagesFrom hc (decides_pagesFrom hc left 2)

theorem heeds_catalog (hc : c.Open) : Heeds ⟨"registry", c.registry.name⟩ limit (Acr.catalog c) :=
  heeds_getDocument hc

theorem heeds_folders (hc : c.Open) (project : Option String) :
    Heeds ⟨"project", project.getD (Artifactory.dockerRepository c)⟩ limit
      (Artifactory.folders c project) :=
  (heeds_getDocument hc).map

/-! ## The listings of the vendors -/

/-- **What a call lists**, if it is a listing of registries: projects, repositories, or the members
of a project where they are listed at all. -/
def listed? (c : Connection) : Call → Option Subject
  | .listProjects =>
    match c.registry.vendor with
    | .harbor | .acr => some ⟨"registry", c.registry.name⟩
    | .artifactory => some ⟨"project", Artifactory.dockerRepository c⟩
  | .listRepositories project =>
    match c.registry.vendor with
    | .harbor | .artifactory => some ⟨"project", project.name⟩
    | .acr => some ⟨"registry", c.registry.name⟩
  | .members project =>
    match c.registry.vendor with
    | .harbor => some ⟨"project", project.name⟩
    | .acr | .artifactory => none
  | _ => none

/-- **Every listing asks, and is decided by its replies.** -/
theorem heeds_exchanges (hc : c.Open) {call : Call} (h : c.listed? call = some subject) :
    Heeds subject c.pageLimit (c.exchanges call) := by
  cases call with
  | listProjects =>
    unfold listed? at h
    unfold exchanges
    generalize c.registry.vendor = vendor at h ⊢
    cases vendor with
    | harbor =>
      obtain rfl := Option.some.inj h
      exact (heeds_listing hc).map
    | acr =>
      obtain rfl := Option.some.inj h
      exact (heeds_catalog hc).map
    | artifactory =>
      obtain rfl := Option.some.inj h
      exact (heeds_folders hc none).map
  | listRepositories project =>
    unfold listed? at h
    unfold exchanges
    generalize c.registry.vendor = vendor at h ⊢
    cases vendor with
    | harbor =>
      obtain rfl := Option.some.inj h
      exact (heeds_listing hc).map
    | acr =>
      obtain rfl := Option.some.inj h
      exact (heeds_catalog hc).map
    | artifactory =>
      obtain rfl := Option.some.inj h
      exact (heeds_folders hc (some project.name)).map
  | members project =>
    unfold listed? at h
    unfold exchanges
    generalize c.registry.vendor = vendor at h ⊢
    cases vendor with
    | harbor =>
      obtain rfl := Option.some.inj h
      exact (heeds_listing hc).bind (fun _ => (heeds_listing hc).map.decides) (Nat.le_add_left _ 1)
    | acr => cases h
    | artifactory => cases h
  | _ => cases h

/-- **A listing fails for a bad reply, and never for a bad body.** Over a connection to a web
address, whoever replies, a listing asks at least once. If every reply has the status of a success,
it returns items, whatever the bodies are; only if more pages are full than a counter of 64 bits can
number, it does not come to an end and is given up. A reply without such a status ends the listing:
it is the first of its kind and the last of all, and the failure is that the listed entity does not
exist for a 404, and one that may be tried again for every other status and for no reply. So no
listing ever fails for a wrong configuration or a missing capability. -/
theorem listing_decided {registry : Registry} {settings : ClientSettings} {call : Call}
    (hc : ofRegistry registry settings = .ok c) (hweb : c.base.isWeb = true)
    (hlisted : c.listed? call = some subject) (replier : Exchanges.Replier σ) (s : σ) :
    c.exchanged replier s call ≠ []
      ∧ ((∀ x ∈ c.exchanged replier s call, Succeeds x.2) →
          (∃ items, (c.serve replier call s).1 = .ok items)
            ∨ pagesCountable ≤ (c.exchanged replier s call).length
              ∧ ∃ path, (c.serve replier call s).1 = .error (endless path))
      ∧ (∀ front request reply back,
          c.exchanged replier s call = front ++ (request, reply) :: back → ¬ Succeeds reply →
            back = [] ∧ (∀ x ∈ front, Succeeds x.2)
              ∧ ∃ e, (c.serve replier call s).1 = .error e ∧ Refuses subject reply e)
      ∧ ∀ e, (c.serve replier call s).1 = .error e →
          e.kind = .notFound ∨ e.kind = .recoverable := by
  obtain ⟨hopen, hlimit⟩ := open_of_ofRegistry hc hweb
  have hheeds := heeds_exchanges hopen hlisted
  have hleads := leads_exchanged (c := c) replier s call
  have hdecided := hheeds.decides _ _ hleads
  rw [hlimit] at hdecided
  refine ⟨hheeds.some _ _ hleads, hdecided.of_succeeds,
    fun front request reply back hlog hreply => ?_, fun e he => ?_⟩
  · rw [hlog] at hdecided
    exact hdecided.of_refusal hreply
  · rw [he] at hdecided
    exact hdecided.kind

/-- A peer that answers for the members of a project with a page for people, and has no robots. -/
def robotsGone : Peer :=
  .scripted (.ofList
    [("GET https://hub.example.com/api/v2.0/projects/p/members?page=1&page_size=100",
      [.answered 200 "<html>maintenance</html>"])]) (.answered 404 "gone")

theorem listing_decided_robots :
    (guardedHub.exchanged Peer.reply robotsGone (.members (.named "p"))).map Prod.snd
        = [.answered 200 "<html>maintenance</html>", .answered 404 "gone"]
      ∧ (guardedHub.serve Peer.reply (.members (.named "p")) robotsGone).1
        = .error (.notFound "project" "p") := by
  have hlog : (guardedHub.exchanged Peer.reply robotsGone (.members (.named "p"))).map Prod.snd
      = [.answered 200 "<html>maintenance</html>", .answered 404 "gone"] := by decide +kernel
  have hconnection : ofRegistry guardedHub.registry .standard = .ok guardedHub := by rfl
  have hlisted : guardedHub.listed? (.members (.named "p")) = some ⟨"project", "p"⟩ := rfl
  obtain ⟨-, -, hrefused, -⟩ :=
    listing_decided hconnection rfl hlisted Peer.reply robotsGone
  refine ⟨hlog, ?_⟩
  obtain ⟨x, rest, hx, -, hrest⟩ := List.map_eq_cons_iff.1 hlog
  obtain ⟨⟨request, reply⟩, back, hy, rfl, -⟩ := List.map_eq_cons_iff.1 hrest
  rw [hy] at hx
  obtain ⟨-, -, e, he, hrefuses⟩ :=
    hrefused [x] request _ back hx fun h => absurd h.2.1 (by decide)
  exact he.trans (congrArg Except.error hrefuses)

end Web.Connection

end RegistryFleet
