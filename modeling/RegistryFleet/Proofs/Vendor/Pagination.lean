import RegistryFleet.Proofs.Vendor.Listing

/-!
# Proofs/Vendor/Pagination — a listing ends at the first page that is not full

A listing asks for one page after the other and knows nothing of how many there are: a full page is
followed by the next one, and every other page, or a refusal, ends it. So it is a question to the
peer whether a listing ends. A peer that cuts a list into pages is told the whole list and nothing
else, since only its last page is not full; a peer that has a full page for every number keeps the
listing going.

* `Connection.pageReply` — the replies to the pages of a listing, asked for in turn.
* `Connection.Walk` — the course of a listing, page by page, and `walk_pagesFrom` that it is one.
* `Harbor.Listing` — the four listings of projects, repositories, members and robots.
* `Harbor.Listing.entries_of_slices` — they return the list that a peer cuts into pages.
* `Harbor.Listing.stops_exactly` — they stop just if some page is not full.
-/

namespace RegistryFleet

open Json (Typed)
open Web (Connection ExchangeFault Exchanges Peer Reply Request Subject Url)

namespace Web.Connection

variable {α σ : Type} {c : Connection} {subject : Subject} {method : Method} {path : String}
  {parameters : List (String × String)} {body : Option Data} {item : Typed α}
  {replier : Exchanges.Replier σ} {left page limit : Nat} {s : σ} {request : Request}

/-! ## The pages of a listing -/

/-- The request for a page of a listing, if the connection has an address for it. -/
def pageRequest? (c : Connection) (path : String) (page : Nat) : Option Request :=
  c.request? .get path [("page", toString page), ("page_size", toString c.pageSize)] none

/-- **The requests for consecutive pages** from a page on. -/
def pageRequests (c : Connection) (path : String) (page count : Nat) : List Request :=
  (List.range' page count).filterMap (c.pageRequest? path)

/-- The reply to one page, and the peer after it. -/
def askPage (c : Connection) (replier : Exchanges.Replier σ) (path : String) (page : Nat) (s : σ) :
    Reply × σ :=
  match c.pageRequest? path page with
  | some request => replier request s
  | none => (.dropped, s)

/-- **The replies to the pages from a page on**, asked for in turn: the `n`-th behind it. -/
def pageReply (c : Connection) (replier : Exchanges.Replier σ) (path : String) :
    (page : Nat) → σ → (n : Nat) → Reply
  | page, s, 0 => (c.askPage replier path page s).1
  | page, s, n + 1 => pageReply c replier path (page + 1) (c.askPage replier path page s).2 n

instance decidableSucceeds : ∀ reply : Reply, Decidable (Succeeds reply)
  | .dropped => isFalse id
  | .answered status _ =>
    decidable_of_iff (200 ≤ status ∧ status < 300)
      ⟨fun h => ⟨h.1, h.2, trivial⟩, fun h => ⟨h.1, h.2.1⟩⟩

/-- **A full page** — its reply succeeds and has as many items as were asked for. -/
structure Full (c : Connection) (item : Typed α) (reply : Reply) : Prop where
  succeeds : Succeeds reply
  filled : c.pageSize ≤ (itemsOf item reply).length

theorem pageRequests_succ : c.pageRequests path page (left + 1)
    = (c.pageRequest? path page).toList ++ c.pageRequests path (page + 1) left := by
  rw [pageRequests, List.range'_succ, List.filterMap_cons]
  cases c.pageRequest? path page <;> rfl

theorem pageRequests_one : c.pageRequests path page 1 = (c.pageRequest? path page).toList :=
  pageRequests_succ.trans (List.append_nil _)

/-- A connection that has an address for one page has one for every page. -/
theorem pageRequest?_ne_none {page' : Nat} (h : c.pageRequest? path page ≠ none) :
    c.pageRequest? path page' ≠ none := by
  obtain ⟨request, hrequest⟩ := Option.ne_none_iff_exists'.1 h
  exact request?_ne_none hrequest

theorem length_pageRequests (h : c.pageRequest? path page ≠ none) (count : Nat) :
    (c.pageRequests path page count).length = count := by
  induction count generalizing page with
  | zero => rfl
  | succ count ih =>
    obtain ⟨request, hrequest⟩ := Option.ne_none_iff_exists'.1 h
    rw [pageRequests_succ, hrequest, Option.toList_some, List.length_append, List.length_singleton,
      ih (pageRequest?_ne_none h), Nat.add_comm]

theorem length_pageRequests_le (count : Nat) : (c.pageRequests path page count).length ≤ count :=
  Nat.le_trans (List.length_filterMap_le _ _) (Nat.le_of_eq List.length_range')

theorem askPage_of_request (replier : Exchanges.Replier σ) (s : σ)
    (h : c.pageRequest? path page = some request) :
    c.askPage replier path page s = replier request s := by
  rw [askPage, h]

/-- Where a page gets a reply that succeeds, it was asked for. -/
theorem request_of_succeeds (h : Succeeds (c.askPage replier path page s).1) :
    c.pageRequest? path page ≠ none := by
  intro hnone
  rw [askPage, hnone] at h
  exact h

/-! ## The course of a listing -/

/-- The body of a reply is received if the reply counts, also where failures are worded anew. -/
theorem mapError_received_eq_ok_iff {url full : Url} {f : ExchangeFault → Error} {text : String}
    {reply : Reply} :
    (received url full reply).mapError f = .ok text ↔ Counts (· = text) reply := by
  cases reply with
  | dropped => simp [received, Except.mapError, Counts]
  | answered status body =>
    rw [received]
    by_cases hstatus : 200 ≤ status ∧ status < 300
    · rw [if_pos hstatus]
      exact ⟨fun h => ⟨hstatus.1, hstatus.2, Except.ok.inj h⟩, fun h => congrArg _ h.2.2⟩
    · rw [if_neg hstatus]
      simp only [Except.mapError, Counts, reduceCtorEq, false_iff]
      exact fun h => hstatus ⟨h.1, h.2.1⟩

/-- A reply that succeeds has a body. -/
theorem Succeeds.text : ∀ {reply : Reply}, Succeeds reply → ∃ text, Counts (· = text) reply
  | .answered _ body, ⟨hlow, hhigh, _⟩ => ⟨withoutMark body, hlow, hhigh, rfl⟩

/-- An exchange sends nothing and fails, or is a request and then what its reply comes to. -/
theorem send_cases (c : Connection) (subject : Subject) (method : Method) (path : String)
    (parameters : List (String × String)) (body : Option Data) :
    (c.request? method path parameters body = none
        ∧ ∃ e, c.send subject method path parameters body = .fail e)
      ∨ ∃ (request : Request) (answer : Reply → Except Error String),
          c.request? method path parameters body = some request
          ∧ c.send subject method path parameters body
              = .send request (fun reply => .ofExcept (answer reply))
          ∧ ∀ reply text, answer reply = .ok text ↔ Counts (· = text) reply := by
  unfold request? send
  cases c.base.join path with
  | error fault => exact .inl ⟨rfl, _, rfl⟩
  | ok url =>
    simp only
    by_cases hweb : (url.withParameters parameters).withoutUserinfo.isWeb = true
    · rw [if_pos hweb, if_pos hweb]
      refine .inr ⟨_, fun reply => (received url (url.withParameters parameters).withoutUserinfo
        reply).mapError (ExchangeFault.about subject), rfl, ?_,
        fun reply text => mapError_received_eq_ok_iff⟩
      congr 1
      funext reply
      beta_reduce
      cases received url (url.withParameters parameters).withoutUserinfo reply <;> rfl
    · rw [if_neg hweb, if_neg hweb]
      exact .inl ⟨rfl, _, rfl⟩

/-- What comes after a page whose reply succeeds. -/
def afterPage (c : Connection) (subject : Subject) (path : String) (item : Typed α)
    (left page : Nat) (items : List α) : Exchanges (List α) :=
  if items.length < c.pageSize then pure items
  else c.pagesFrom subject path item left (page + 1) >>= fun rest => pure (items ++ rest)

/-- **One step of a listing** — a page is asked for, and its reply decides what comes after it. -/
theorem pagesFrom_succ (c : Connection) (subject : Subject) (path : String) (item : Typed α)
    (left page : Nat) :
    (c.pageRequest? path page = none
        ∧ ∃ e, c.pagesFrom subject path item (left + 1) page = .fail e)
      ∨ ∃ (request : Request) (next : Reply → Exchanges (List α)),
          c.pageRequest? path page = some request
          ∧ c.pagesFrom subject path item (left + 1) page = .send request next
          ∧ (∀ reply, Succeeds reply →
              next reply = c.afterPage subject path item left page (itemsOf item reply))
          ∧ ∀ reply, ¬ Succeeds reply → ∃ e, next reply = .fail e := by
  rw [pagesFrom, getDocument]
  rcases c.send_cases subject .get path
      [("page", toString page), ("page_size", toString c.pageSize)] none
    with ⟨hrequest, e, hsend⟩ | ⟨request, answer, hrequest, hsend, hanswer⟩
  · rw [hsend]
    exact .inl ⟨hrequest, e, rfl⟩
  · rw [hsend]
    refine .inr ⟨request, fun reply => ((Exchanges.ofExcept (answer reply)).bind fun text =>
        .done (document (.list item) [] text)).bind (c.afterPage subject path item left page),
      hrequest, rfl, fun reply hreply => ?_, fun reply hreply => ?_⟩
    · obtain ⟨text, htext⟩ := hreply.text
      simp only [(hanswer reply text).2 htext, itemsOf_of_counts htext]
      rfl
    · cases he : answer reply with
      | ok text => exact absurd (((hanswer reply text).1 he).mono fun _ _ => trivial) hreply
      | error e =>
        simp only [he]
        exact ⟨e, rfl⟩

/-- **The course of a listing**, page by page: how many pages are left to ask for, the page, the
peer, the requests that are sent and the result. -/
inductive Walk (c : Connection) (replier : Exchanges.Replier σ) (path : String) (item : Typed α) :
    (left page : Nat) → σ → List Request → Except Error (List α) → Prop
  | endless {page : Nat} {s : σ} : Walk c replier path item 0 page s [] (.error (endless path))
  /-- Without an address, nothing is sent, and no reply succeeds. -/
  | refused {left page : Nat} {s : σ} {e : Error}
      (hreply : ¬ Succeeds (c.askPage replier path page s).1) :
      Walk c replier path item (left + 1) page s (c.pageRequest? path page).toList (.error e)
  | last {left page : Nat} {s : σ} (hreply : Succeeds (c.askPage replier path page s).1)
      (hlast : (itemsOf item (c.askPage replier path page s).1).length < c.pageSize) :
      Walk c replier path item (left + 1) page s (c.pageRequest? path page).toList
        (.ok (itemsOf item (c.askPage replier path page s).1))
  | full {left page : Nat} {s : σ} {requests : List Request} {result : Except Error (List α)}
      (hfull : c.Full item (c.askPage replier path page s).1)
      (hrest : Walk c replier path item left (page + 1) (c.askPage replier path page s).2 requests
        result) :
      Walk c replier path item (left + 1) page s ((c.pageRequest? path page).toList ++ requests)
        (result.map (itemsOf item (c.askPage replier path page s).1 ++ ·))

/-- **A listing goes its course.** -/
theorem walk_pagesFrom (c : Connection) (subject : Subject) (replier : Exchanges.Replier σ)
    (path : String) (item : Typed α) : ∀ (left page : Nat) (s : σ),
      Walk c replier path item left page s
        (((c.pagesFrom subject path item left page).record replier s).map Prod.fst)
        ((c.pagesFrom subject path item left page).run replier s).1
  | 0, _, _ => .endless
  | left + 1, page, s => by
      rcases c.pagesFrom_succ subject path item left page
        with ⟨hrequest, e, he⟩ | ⟨request, next, hrequest, hnext, hsucceeds, hrefused⟩
      · have hwalk : Walk c replier path item (left + 1) page s (c.pageRequest? path page).toList
            (.error e) := .refused fun h => request_of_succeeds h hrequest
        rw [hrequest] at hwalk
        rw [he]
        exact hwalk
      · rw [hnext, Exchanges.record_send, Exchanges.run_send,
          ← askPage_of_request replier s hrequest, List.map_cons,
          ← List.singleton_append, ← Option.toList_some, ← hrequest]
        by_cases hreply : Succeeds (c.askPage replier path page s).1
        · rw [hsucceeds _ hreply, afterPage]
          split
          · next hlast =>
            rw [Exchanges.record_pure, List.map_nil, List.append_nil]
            exact .last hreply hlast
          · next hfull =>
            rw [Exchanges.record_map, Exchanges.run_map]
            exact .full ⟨hreply, Nat.le_of_not_lt hfull⟩
              (walk_pagesFrom c subject replier path item left (page + 1) _)
        · obtain ⟨e, he⟩ := hrefused _ hreply
          rw [he, Exchanges.record_fail, List.map_nil, List.append_nil]
          exact .refused hreply

/-! ## Where a listing ends -/

/-- A page that is not full is the first one, where all pages in front of the `n`-th are full. -/
theorem eq_zero_of_not_full {n : Nat} (hfirst : ¬ c.Full item (c.askPage replier path page s).1)
    (hpages : ∀ m < n, c.Full item (c.pageReply replier path page s m)) : n = 0 := by
  by_contra hn
  exact hfirst (hpages 0 (Nat.pos_of_ne_zero hn))

/-- **A listing ends at the first page that is not full** — with the items of all pages up to it, or
with a failure if it is refused. -/
theorem Walk.ends {requests : List Request} {result : Except Error (List α)}
    (h : Walk c replier path item left page s requests result) :
    ∀ n < left, (∀ m < n, c.Full item (c.pageReply replier path page s m)) →
      ¬ c.Full item (c.pageReply replier path page s n) →
      requests = c.pageRequests path page (n + 1)
        ∧ (Succeeds (c.pageReply replier path page s n) →
            result = .ok ((List.range (n + 1)).flatMap fun m =>
              itemsOf item (c.pageReply replier path page s m)))
        ∧ (¬ Succeeds (c.pageReply replier path page s n) → ∃ e, result = .error e) := by
  induction h with
  | endless => exact fun n hn => absurd hn n.not_lt_zero
  | @refused left page s e hreply =>
    intro n hn hpages hend
    obtain rfl := eq_zero_of_not_full (fun hfull => hreply hfull.succeeds) hpages
    exact ⟨pageRequests_one.symm, fun h => absurd h hreply, fun _ => ⟨e, rfl⟩⟩
  | @last left page s hreply hlast =>
    intro n hn hpages hend
    obtain rfl := eq_zero_of_not_full (fun hfull => Nat.not_le_of_lt hlast hfull.filled) hpages
    exact ⟨pageRequests_one.symm, fun _ => congrArg Except.ok (List.append_nil _).symm,
      fun h => absurd hreply h⟩
  | @full left page s requests result hfull hrest ih =>
    rintro (_ | n) hn hpages hend
    · exact absurd hfull hend
    · obtain ⟨hrequests, hvalue, herror⟩ := ih n (Nat.lt_of_succ_lt_succ hn)
        (fun m hm => hpages (m + 1) (Nat.succ_lt_succ hm)) hend
      refine ⟨?_, fun hreply => ?_, fun hreply => ?_⟩
      · rw [pageRequests_succ, hrequests]
      · rw [hvalue hreply, List.range_succ_eq_map (n := n + 1), List.flatMap_cons, List.flatMap_map]
        rfl
      · obtain ⟨e, he⟩ := herror hreply
        exact ⟨e, by rw [he]; rfl⟩

/-- **A listing without such a page goes on** until no page is left to ask for. -/
theorem Walk.goes_on {requests : List Request} {result : Except Error (List α)}
    (h : Walk c replier path item left page s requests result)
    (hpages : ∀ m < left, c.Full item (c.pageReply replier path page s m)) :
    requests = c.pageRequests path page left := by
  induction h with
  | endless => rfl
  | refused hreply => exact absurd (hpages 0 (Nat.succ_pos _)).succeeds hreply
  | last hreply hlast => exact absurd (hpages 0 (Nat.succ_pos _)).filled (Nat.not_le_of_lt hlast)
  | full hfull hrest ih =>
    rw [pageRequests_succ, ih fun m hm => hpages (m + 1) (Nat.succ_lt_succ hm)]

/-- The connection with another limit on the pages of a listing. -/
def withLimit (c : Connection) (limit : Nat) : Connection := { c with pageLimit := limit }

@[simp] theorem withLimit_pageLimit : c.withLimit c.pageLimit = c := rfl

end Web.Connection

namespace Harbor

open Web.Connection (Full Succeeds askPage_of_request guardedHub isSome_request?_iff itemsOf
  length_pageRequests length_pageRequests_le pageRequest?_ne_none request_of_succeeds)

variable {σ : Type} {c : Connection} {replier : Exchanges.Replier σ} {s : σ} {limit : Nat}

/-! ## The listings -/

/-- **What is listed** by the page. -/
inductive Listing
  | projects
  | repositories (project : Project)
  | members (project : Project)
  | robots (project : Project)

namespace Listing

/-- What a page of the listing holds. -/
abbrev Item : Listing → Type
  | projects => ProjectItem
  | repositories _ => String
  | members _ => MemberItem
  | robots _ => RobotItem

/-- What the listing returns. -/
abbrev Entry : Listing → Type
  | projects => Project
  | repositories _ => Repository
  | members _ => MemberItem
  | robots _ => RobotItem

/-- How an item is read. -/
def read : (l : Listing) → Typed l.Item
  | projects => readProject
  | repositories _ => readRepository
  | members _ => readMember
  | robots _ => readRobot

/-- Where the listing is. -/
def path : Listing → String
  | projects => projectsPath
  | repositories project => repositoriesPath project.name
  | members project => membersPath project.name
  | robots project => robotsPath project.name

/-- What the listing is about. -/
def subject (c : Connection) : Listing → Subject
  | projects => ⟨"registry", c.registry.name⟩
  | repositories project | members project | robots project => aboutProject project.name

/-- What is returned for an item. -/
def entry : (l : Listing) → l.Item → l.Entry
  | projects, item => item.project
  | repositories project, name => ⟨project.name, name⟩
  | members _, item => item
  | robots _, item => item

/-- **The listing**, as the calls use it. -/
def entries (c : Connection) : (l : Listing) → Exchanges (List l.Entry)
  | projects => Harbor.projects c
  | repositories project => Harbor.repositories c project
  | members project => memberItems c project
  | robots project => robotItems c project

/-- All are listings by the page, and what is returned is made of the items one by one. -/
theorem entries_eq (c : Connection) (l : Listing) : l.entries c
    = c.listing (l.subject c) l.path l.read >>= fun items => pure (items.map l.entry) := by
  cases l with
  | projects => rfl
  | repositories project => rfl
  | members project =>
    have hentry : (members project).entry = id := rfl
    simp only [hentry, List.map_id, bind_pure]
    rfl
  | robots project =>
    have hentry : (robots project).entry = id := rfl
    simp only [hentry, List.map_id, bind_pure]
    rfl

/-- The requests of the listing, in order. -/
def requests (l : Listing) (c : Connection) (replier : Exchanges.Replier σ) (s : σ) :
    List Request :=
  ((l.entries c).record replier s).map Prod.fst

/-- What the listing comes to. -/
def result (l : Listing) (c : Connection) (replier : Exchanges.Replier σ) (s : σ) :
    Except Error (List l.Entry) :=
  ((l.entries c).run replier s).1

/-- The reply to the `n`-th page of the listing behind the first, all asked for in turn. -/
def reply (l : Listing) (c : Connection) (replier : Exchanges.Replier σ) (s : σ) (n : Nat) :
    Reply :=
  c.pageReply replier l.path 1 s n

/-- **A listing goes its course**, and returns what is made of the items told. -/
theorem walk_entries (l : Listing) (c : Connection) (replier : Exchanges.Replier σ) (s : σ) :
    ∃ told : Except Error (List l.Item),
      c.Walk replier l.path l.read c.pageLimit 1 s (l.requests c replier s) told
        ∧ l.result c replier s = told.map (List.map l.entry) := by
  have hwalk := Web.Connection.walk_pagesFrom c (l.subject c) replier l.path l.read c.pageLimit 1 s
  rw [requests, result, entries_eq, Exchanges.record_map, Exchanges.run_map]
  exact ⟨_, hwalk, rfl⟩

variable {l : Listing}

/-- The peer is asked the same whatever the limit is. -/
theorem reply_withLimit (n : Nat) :
    l.reply (c.withLimit limit) replier s n = l.reply c replier s n := by
  have hpage : ∀ (page : Nat) (s : σ),
      (c.withLimit limit).pageReply replier l.path page s n
        = c.pageReply replier l.path page s n := by
    induction n with
    | zero => exact fun page s => rfl
    | succ n ih => exact fun page s => ih (page + 1) _
  exact hpage 1 s

theorem full_withLimit {reply : Reply} :
    (c.withLimit limit).Full l.read reply ↔ c.Full l.read reply :=
  ⟨fun h => ⟨h.succeeds, h.filled⟩, fun h => ⟨h.succeeds, h.filled⟩⟩

/-- **A listing ends at the first page that is not full.** -/
theorem ends {n : Nat} (hlimit : n < limit)
    (hpages : ∀ m < n, c.Full l.read (l.reply c replier s m))
    (hend : ¬ c.Full l.read (l.reply c replier s n)) :
    l.requests (c.withLimit limit) replier s = c.pageRequests l.path 1 (n + 1)
      ∧ (Succeeds (l.reply c replier s n) → l.result (c.withLimit limit) replier s
          = .ok (((List.range (n + 1)).flatMap fun m =>
              itemsOf l.read (l.reply c replier s m)).map l.entry))
      ∧ (¬ Succeeds (l.reply c replier s n) →
          ∃ e, l.result (c.withLimit limit) replier s = .error e) := by
  obtain ⟨told, hwalk, hresult⟩ := walk_entries l (c.withLimit limit) replier s
  have hcourse := hwalk.ends n hlimit
  have hreply : ∀ m, (c.withLimit limit).pageReply replier l.path 1 s m = l.reply c replier s m :=
    reply_withLimit
  simp only [hreply, full_withLimit] at hcourse
  obtain ⟨hrequests, hvalue, herror⟩ := hcourse hpages hend
  refine ⟨hrequests, fun hsucceeds => ?_, fun hrefused => ?_⟩
  · rw [hresult, hvalue hsucceeds]
    rfl
  · obtain ⟨e, he⟩ := herror hrefused
    exact ⟨e, by rw [hresult, he]; rfl⟩

/-- **A listing whose pages are all full** asks for all of them. -/
theorem goes_on (hpages : ∀ m < limit, c.Full l.read (l.reply c replier s m)) :
    l.requests (c.withLimit limit) replier s = c.pageRequests l.path 1 limit := by
  obtain ⟨told, hwalk, -⟩ := walk_entries l (c.withLimit limit) replier s
  have hcourse := hwalk.goes_on
  have hreply : ∀ m, (c.withLimit limit).pageReply replier l.path 1 s m = l.reply c replier s m :=
    reply_withLimit
  simp only [hreply, full_withLimit] at hcourse
  exact hcourse hpages

/-! ## A list that is cut into pages -/

theorem flatMap_slices {α : Type} (items : List α) (k n : Nat) :
    ((List.range n).flatMap fun m => (items.drop (m * k)).take k) = items.take (n * k) := by
  induction n with
  | zero => simp
  | succ n ih =>
    rw [List.range_succ, List.flatMap_append, ih, List.flatMap_singleton, ← List.take_add,
      Nat.succ_mul]

/-- All slices of a list are full but the last. -/
theorem length_slice {α : Type} {items : List α} {k n : Nat} (hn : n < items.length / k) :
    ((items.drop (n * k)).take k).length = k := by
  have hend : (n + 1) * k ≤ items.length :=
    Nat.le_trans (Nat.mul_le_mul_right k hn) (Nat.div_mul_le_self items.length k)
  rw [Nat.succ_mul] at hend
  rw [List.length_take, List.length_drop]
  omega

theorem length_last_slice {α : Type} {items : List α} {k : Nat} (hk : 0 < k) :
    ((items.drop (items.length / k * k)).take k).length < k := by
  have hend : items.length < k * (items.length / k + 1) := Nat.lt_mul_div_succ items.length hk
  rw [Nat.mul_succ, Nat.mul_comm] at hend
  rw [List.length_take, List.length_drop]
  omega

/-- The slices of a list, up to the last, are the list. -/
theorem flatMap_of_slices {α : Type} {items : List α} {k : Nat} {pages : Nat → List α} (hk : 0 < k)
    (hpages : ∀ n ≤ items.length / k, pages n = (items.drop (n * k)).take k) :
    (List.range (items.length / k + 1)).flatMap pages = items := by
  have hslices : ∀ n ∈ List.range (items.length / k + 1),
      pages n = (items.drop (n * k)).take k :=
    fun n hn => hpages n (Nat.le_of_lt_succ (List.mem_range.1 hn))
  rw [List.flatMap_congr hslices, flatMap_slices, List.take_of_length_le]
  rw [Nat.mul_comm]
  exact Nat.le_of_lt (Nat.lt_mul_div_succ items.length hk)

/-- **A listing loses and repeats nothing.** Where the replies to the pages of a listing, asked for
in turn, cut a list into pages of the size that is asked for, the listing returns just this list, in
its order, and asks for the pages from the first to the one behind all full ones, each once. There
may be as many pages as the connection counts, which for every registry is what 64 bits can
number. -/
theorem entries_of_slices (l : Listing) (c : Connection) (replier : Exchanges.Replier σ) (s : σ)
    (items : List l.Item) (hsize : 0 < c.pageSize)
    (hcount : items.length / c.pageSize < c.pageLimit)
    (hpeer : ∀ n ≤ items.length / c.pageSize, Succeeds (l.reply c replier s n)
      ∧ itemsOf l.read (l.reply c replier s n) = (items.drop (n * c.pageSize)).take c.pageSize) :
    l.result c replier s = .ok (items.map l.entry)
      ∧ l.requests c replier s = c.pageRequests l.path 1 (items.length / c.pageSize + 1)
      ∧ (l.requests c replier s).length = items.length / c.pageSize + 1 := by
  have hfull : ∀ m < items.length / c.pageSize, c.Full l.read (l.reply c replier s m) := by
    intro m hm
    obtain ⟨hsucceeds, hitems⟩ := hpeer m (Nat.le_of_lt hm)
    exact ⟨hsucceeds, Nat.le_of_eq (by rw [hitems, length_slice hm])⟩
  obtain ⟨hsucceeds, hitems⟩ := hpeer _ (Nat.le_refl _)
  have hlast : ¬ c.Full l.read (l.reply c replier s (items.length / c.pageSize)) := by
    intro hfull
    have hlength := hfull.filled
    rw [hitems] at hlength
    exact absurd hlength (Nat.not_le_of_lt (length_last_slice hsize))
  have haddress := request_of_succeeds (hpeer 0 (Nat.zero_le _)).1
  have hends := ends hcount hfull hlast
  rw [Web.Connection.withLimit_pageLimit] at hends
  obtain ⟨hrequests, hvalue, -⟩ := hends
  refine ⟨?_, hrequests, ?_⟩
  · rw [hvalue hsucceeds, flatMap_of_slices hsize fun n hn => (hpeer n hn).2]
  · rw [hrequests, length_pageRequests haddress]

/-- A hub that is asked for pages of some size. -/
def hubWithPages (size : Nat) : Connection := { guardedHub with pageSize := size }

/-- A peer with three projects, on pages of two. -/
def threeProjects : Peer :=
  .scripted (.ofList
    [("GET https://hub.example.com/api/v2.0/projects?page=1&page_size=2",
      [.answered 200 ("[\x7b\"project_id\":1,\"name\":\"a\"\x7d,"
        ++ "\x7b\"project_id\":2,\"name\":\"b\"\x7d]")]),
     ("GET https://hub.example.com/api/v2.0/projects?page=2&page_size=2",
      [.answered 200 "[\x7b\"project_id\":3,\"name\":\"c\"\x7d]"])]) Peer.nothingThere

theorem entries_of_slices_three_projects :
    projects.result (hubWithPages 2) Peer.reply threeProjects
        = .ok [⟨"a", some "1"⟩, ⟨"b", some "2"⟩, ⟨"c", some "3"⟩]
      ∧ (projects.requests (hubWithPages 2) Peer.reply threeProjects).length = 2 := by
  have hpeer : ∀ n ≤ 1,
      Succeeds (projects.reply (hubWithPages 2) Peer.reply threeProjects n)
        ∧ itemsOf projects.read (projects.reply (hubWithPages 2) Peer.reply threeProjects n)
          = ([⟨1, "a"⟩, ⟨2, "b"⟩, ⟨3, "c"⟩].drop (n * 2)).take 2 := by decide +kernel
  have hcount : 3 / 2 < (hubWithPages 2).pageLimit := by decide +kernel
  obtain ⟨hresult, -, hlength⟩ :=
    entries_of_slices projects (hubWithPages 2) Peer.reply threeProjects
      [⟨1, "a"⟩, ⟨2, "b"⟩, ⟨3, "c"⟩] Nat.zero_lt_two hcount hpeer
  exact ⟨hresult, hlength⟩

/-! ## Whether a listing stops -/

/-- **The listing stops** by itself: however far pages can be counted, no more than some number of
requests is sent. That the counter of the pages runs out is no way to stop. -/
def Stops (l : Listing) (c : Connection) (replier : Exchanges.Replier σ) (s : σ) : Prop :=
  ∃ count, ∀ limit, (l.requests (c.withLimit limit) replier s).length ≤ count

/-- A listing that meets a page that is not full stops. -/
theorem stops_of_not_full {n : Nat} (h : ¬ c.Full l.read (l.reply c replier s n)) :
    l.Stops c replier s := by
  induction n using Nat.strongRecOn with
  | ind n ih =>
    by_cases hearlier : ∃ m, m < n ∧ ¬ c.Full l.read (l.reply c replier s m)
    · obtain ⟨m, hm, hnot⟩ := hearlier
      exact ih m hm hnot
    · have hpages : ∀ m < n, c.Full l.read (l.reply c replier s m) := fun m hm =>
        Classical.not_not.1 fun hnot => hearlier ⟨m, hm, hnot⟩
      refine ⟨n + 1, fun limit => ?_⟩
      rcases Nat.lt_or_ge n limit with hlimit | hlimit
      · rw [(ends hlimit hpages h).1]
        exact length_pageRequests_le _
      · rw [goes_on fun m hm => hpages m (Nat.lt_of_lt_of_le hm hlimit)]
        exact Nat.le_trans (length_pageRequests_le _) (Nat.le_succ_of_le hlimit)

/-- A listing whose pages are all full does not stop. -/
theorem not_stops_of_full (h : ∀ n, c.Full l.read (l.reply c replier s n)) :
    ¬ l.Stops c replier s := by
  rintro ⟨count, hcount⟩
  have haddress := request_of_succeeds (h 0).succeeds
  have hlength := hcount (count + 1)
  rw [goes_on fun m _ => h m, length_pageRequests haddress] at hlength
  exact Nat.not_succ_le_self count hlength

/-- Where each of finitely many items stands on finitely many pages, some page is empty. -/
theorem exists_empty_page {α : Type} {pages : Nat → List α} {known : List α}
    (hknown : ∀ n, pages n ⊆ known) (hlast : ∀ a ∈ known, ∃ bound, ∀ n, a ∈ pages n → n < bound) :
    ∃ n, pages n = [] := by
  have hbound : ∀ front : List α, front ⊆ known →
      ∃ bound, ∀ a ∈ front, ∀ n, a ∈ pages n → n < bound := by
    intro front
    induction front with
    | nil => exact fun _ => ⟨0, fun a ha => absurd ha List.not_mem_nil⟩
    | cons b front ih =>
      intro hfront
      obtain ⟨hb, hfront⟩ := List.cons_subset.1 hfront
      obtain ⟨bound, h⟩ := ih hfront
      obtain ⟨bound', h'⟩ := hlast b hb
      refine ⟨max bound bound', List.forall_mem_cons.2 ⟨fun n hn => ?_, fun a ha n hn => ?_⟩⟩
      · exact Nat.lt_of_lt_of_le (h' n hn) (Nat.le_max_right _ _)
      · exact Nat.lt_of_lt_of_le (h a ha n hn) (Nat.le_max_left _ _)
  obtain ⟨bound, h⟩ := hbound known (List.Subset.refl known)
  refine ⟨bound, List.eq_nil_iff_forall_not_mem.2 fun a ha => ?_⟩
  exact Nat.lt_irrefl bound (h a (hknown bound ha) bound ha)

/-- **Whether a listing stops is up to the peer.** It stops just if some page, all asked for in
turn, is not full or is refused. It has then asked for the pages up to the first such one, each
once, and returns what they tell, or fails where the last was refused; else it asks for every page
there may be. So it stops for every peer that knows finitely many items and tells none of them on
infinitely many pages. -/
theorem stops_exactly (l : Listing) (c : Connection) (replier : Exchanges.Replier σ) (s : σ) :
    (l.Stops c replier s ↔ ∃ n, ¬ c.Full l.read (l.reply c replier s n))
      ∧ (∀ n, (∀ m < n, c.Full l.read (l.reply c replier s m)) →
          ¬ c.Full l.read (l.reply c replier s n) → ∀ limit, n < limit →
            l.requests (c.withLimit limit) replier s = c.pageRequests l.path 1 (n + 1)
            ∧ (Succeeds (l.reply c replier s n) → l.result (c.withLimit limit) replier s
                = .ok (((List.range (n + 1)).flatMap fun m =>
                    itemsOf l.read (l.reply c replier s m)).map l.entry))
            ∧ (¬ Succeeds (l.reply c replier s n) →
                ∃ e, l.result (c.withLimit limit) replier s = .error e))
      ∧ ((∀ n, c.Full l.read (l.reply c replier s n)) → ∀ limit,
          l.requests (c.withLimit limit) replier s = c.pageRequests l.path 1 limit
            ∧ (l.requests (c.withLimit limit) replier s).length = limit)
      ∧ ∀ known : List l.Item, 0 < c.pageSize →
          (∀ n, itemsOf l.read (l.reply c replier s n) ⊆ known) →
          (∀ a ∈ known, ∃ bound, ∀ n, a ∈ itemsOf l.read (l.reply c replier s n) → n < bound) →
          l.Stops c replier s := by
  refine ⟨⟨fun hstops => ?_, fun ⟨n, hn⟩ => stops_of_not_full hn⟩,
    fun n hpages hend limit hlimit => ends hlimit hpages hend, fun hfull limit => ?_,
    fun known hsize hknown hlast => ?_⟩
  · by_contra hnone
    exact not_stops_of_full (fun n => Classical.not_not.1 fun hn => hnone ⟨n, hn⟩) hstops
  · have hrequests := goes_on fun m (_ : m < limit) => hfull m
    have haddress := request_of_succeeds (hfull 0).succeeds
    exact ⟨hrequests, by rw [hrequests, length_pageRequests haddress]⟩
  · obtain ⟨n, hn⟩ := exists_empty_page hknown hlast
    refine stops_of_not_full (n := n) fun hfull => ?_
    have hfilled := hfull.filled
    rw [hn] at hfilled
    exact Nat.not_le_of_lt hsize hfilled

/-- The listing of three projects stops with the second page. -/
theorem stops_exactly_three_projects :
    projects.Stops (hubWithPages 2) Peer.reply threeProjects := by
  have hitems : (itemsOf projects.read
      (projects.reply (hubWithPages 2) Peer.reply threeProjects 1)).length = 1 := by
    decide +kernel
  refine (stops_exactly projects (hubWithPages 2) Peer.reply threeProjects).1.2 ⟨1, fun hfull => ?_⟩
  have hfilled := hfull.filled
  rw [hitems] at hfilled
  exact absurd hfilled (by decide)

/-- A peer that says the same of every page. -/
def heedless (reply : Reply) : Exchanges.Replier Unit := fun _ peer => (reply, peer)

theorem reply_heedless {reply : Reply} (h : c.pageRequest? l.path 1 ≠ none) (n : Nat) :
    l.reply c (heedless reply) () n = reply := by
  have haddress : ∀ page, c.pageRequest? l.path page ≠ none := fun _ => pageRequest?_ne_none h
  have hpage : ∀ page, c.pageReply (heedless reply) l.path page () n = reply := by
    induction n with
    | zero =>
      intro page
      obtain ⟨request, hrequest⟩ := Option.ne_none_iff_exists'.1 (haddress page)
      rw [Web.Connection.pageReply, askPage_of_request _ _ hrequest]
      rfl
    | succ n ih => exact fun page => ih (page + 1)
  exact hpage 1

/-- A page with one project. -/
def onePage : Reply := .answered 200 "[\x7b\"project_id\":1,\"name\":\"a\"\x7d]"

/-- **A peer that knows one project keeps a listing going** if it tells it on every page. -/
theorem not_stops_heedless :
    Connection.ofRegistry (hubWithPages 1).registry (ClientSettings.standard.withPageSize 1)
        = .ok (hubWithPages 1)
      ∧ (∀ request, itemsOf projects.read (heedless onePage request ()).1 = [⟨1, "a"⟩])
      ∧ ¬ projects.Stops (hubWithPages 1) (heedless onePage) () := by
  have hitems : itemsOf projects.read onePage = [⟨1, "a"⟩] := by decide +kernel
  have haddress : (hubWithPages 1).pageRequest? projects.path 1 ≠ none :=
    Option.isSome_iff_ne_none.1 (isSome_request?_iff.2 ⟨⟨[""], rfl⟩, rfl⟩)
  refine ⟨by rfl, fun request => hitems, not_stops_of_full fun n => ?_⟩
  rw [reply_heedless haddress]
  exact ⟨by decide, Nat.le_of_eq (congrArg List.length hitems).symm⟩

end Listing

end Harbor

end RegistryFleet
