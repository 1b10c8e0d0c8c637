import RegistryFleet.Proofs.Json.Typed
import RegistryFleet.Proofs.Web.Exchange
import RegistryFleet.Web.Connection

/-!
# Proofs/Web/Connection — what one exchange over a connection comes to

A connection either has no address for a path, and then sends nothing, or sends one request, and
then the reply decides. A reply that counts gives its body; a reply of status 404 says that there is
nothing; every other reply is a failure that may pass.

* `Connection.Counts` — a reply that counts, and what is said of its body.
* `Connection.Sends` — what an exchange may come to.
* `Connection.Strict` — success only where every reply counts.
* `Connection.itemsHeard` — the items that the pages of a listing say.
* `Connection.leads_pagesFrom` — a listing that succeeds is what its pages say.
-/

namespace RegistryFleet.Web.Connection

open Json (Typed)

variable {α σ : Type} {P : Request → Prop} {heard : List Reply} {c : Connection}
  {subject : Subject} {method : Method} {path : String} {parameters : List (String × String)}
  {body : Option Data} {log : List (Request × Reply)}

/-! ## Replies that count -/

/-- A reply that counts, and what is said of its body. -/
def Counts (Q : String → Prop) : Reply → Prop
  | .dropped => False
  | .answered status body => 200 ≤ status ∧ status < 300 ∧ Q (withoutMark body)

theorem Counts.mono {Q Q' : String → Prop} (hQ : ∀ body, Q body → Q' body) :
    ∀ {reply : Reply}, Counts Q reply → Counts Q' reply
  | .answered _ _, ⟨hlow, hhigh, hbody⟩ => ⟨hlow, hhigh, hQ _ hbody⟩

/-- A reply has one body. -/
theorem Counts.text {Q : String → Prop} {text : String} :
    ∀ {reply : Reply}, Counts Q reply → Counts (· = text) reply → Q text
  | .answered _ _, ⟨_, _, hbody⟩, ⟨_, _, htext⟩ => htext ▸ hbody

theorem Counts.ne_missing {Q : String → Prop} {reply : Reply} (h : Counts Q reply) (body : String) :
    reply ≠ .answered 404 body := by
  rintro rfl
  exact absurd h.2.1 (by decide)

/-- A body is taken for what can be read in it. -/
theorem document_of_ok {read : Typed α} {fallback a : α} {body : String}
    (h : read.read body = .ok a) : document read fallback body = a := by
  rw [document, if_neg fun hblank => Typed.not_read_of_blank hblank h, h]
  rfl

/-- A body that cannot be read counts for nothing. -/
theorem document_of_not_read {read : Typed α} {fallback : α} {body : String}
    (h : ∀ a, read.read body ≠ .ok a) : document read fallback body = fallback := by
  unfold document
  split
  · rfl
  · rcases hread : read.read body with f | a
    · rfl
    · exact absurd hread (h a)

/-- A document that may be missing is there just if it can be read. -/
theorem document_eq_some_iff {read : Typed (Option α)} {a : α} {body : String} :
    document read none body = some a ↔ read.read body = .ok (some a) := by
  refine ⟨fun h => ?_, document_of_ok⟩
  unfold document at h
  split at h
  · cases h
  · rcases hread : read.read body with f | value
    · rw [hread] at h
      cases h
    · rw [hread] at h
      exact congrArg Except.ok h

/-! ## One exchange -/

/-- **The request for a path**, if the connection has an address for it. -/
def request? (c : Connection) (method : Method) (path : String)
    (parameters : List (String × String)) (body : Option Data) : Option Request :=
  match c.base.join path with
  | .error _ => none
  | .ok url =>
    let full := (url.withParameters parameters).withoutUserinfo
    if full.isWeb then some ⟨method, full, body, c.authorization, c.userAgent⟩ else none

theorem scheme_withParameters (u : Url) (parameters : List (String × String)) :
    (u.withParameters parameters).scheme = u.scheme := by
  unfold Url.withParameters
  split
  · rfl
  · simp only
    split <;> rfl

/-- **A connection has an address for every path or for none.** -/
theorem isSome_request?_iff : (c.request? method path parameters body).isSome = true
    ↔ (∃ names, c.base.path = .segments names) ∧ c.base.isWeb = true := by
  unfold request? Url.join
  rcases hpath : c.base.path with names | text
  · simp only [Url.isWeb, Url.withoutUserinfo, scheme_withParameters]
    split <;> simp_all
  · simp

/-- Where a request goes. -/
theorem url_of_request? {request : Request}
    (h : c.request? method path parameters body = some request) :
    c.base.isWeb = true ∧ ∃ url, c.base.join path = .ok url
      ∧ request.url = (url.withParameters parameters).withoutUserinfo := by
  refine ⟨(isSome_request?_iff.1 (Option.isSome_of_eq_some h)).2, ?_⟩
  unfold request? at h
  split at h
  · cases h
  next url hurl =>
  simp only at h
  split at h
  · exact ⟨url, hurl, (Option.some.inj h) ▸ rfl⟩
  · cases h

/-- A connection that has one address has every other. -/
theorem request?_ne_none {method' : Method} {path' : String} {parameters' : List (String × String)}
    {body' : Option Data} {request : Request}
    (h : c.request? method path parameters body = some request) :
    c.request? method' path' parameters' body' ≠ none := by
  have hsome := isSome_request?_iff.1 (Option.isSome_of_eq_some h)
  exact Option.isSome_iff_ne_none.1 (isSome_request?_iff.2 hsome)

/-- What a request is. -/
theorem of_request? {request : Request}
    (h : c.request? method path parameters body = some request) :
    request.method = method ∧ request.body = body := by
  unfold request? at h
  split at h
  · cases h
  · simp only at h
    split at h
    · obtain rfl := Option.some.inj h
      exact ⟨rfl, rfl⟩
    · cases h

/-- **How an exchange ends**, by its reply. -/
inductive Ends (subject : Subject) : Reply → Except Error String → Prop
  | counted {reply : Reply} {text : String} (h : Counts (· = text) reply) :
      Ends subject reply (.ok text)
  | missing (body : String) :
      Ends subject (.answered 404 body) (.error (.notFound subject.entity subject.name))
  /-- Not a word that there is nothing. -/
  | failed {reply : Reply} {e : Error} (h : e.kind ≠ .notFound)
      (hcounts : ¬ Counts (fun _ => True) reply) (hmissing : ∀ body, reply ≠ .answered 404 body) :
      Ends subject reply (.error e)

/-- **What an exchange may come to**: nothing is sent, or one request is. -/
inductive Sends (c : Connection) (subject : Subject) (method : Method) (path : String)
    (parameters : List (String × String)) (body : Option Data) :
    List (Request × Reply) → Except Error String → Prop
  | unsent {e : Error} (h : c.request? method path parameters body = none)
      (he : e.kind ≠ .notFound) : Sends c subject method path parameters body [] (.error e)
  | sent {request : Request} {reply : Reply} {answer : Except Error String}
      (h : c.request? method path parameters body = some request)
      (hends : Ends subject reply answer) :
      Sends c subject method path parameters body [(request, reply)] answer

/-- The failure that a fault comes to is that there is nothing only where the reply says so. -/
theorem kind_about_of_ne {fault : ExchangeFault}
    (h : ∀ url body, fault ≠ .refused url 404 body) : (fault.about subject).kind ≠ .notFound := by
  rcases fault with _ | _ | _ | ⟨url, status, body⟩
  · exact fun he => nomatch he
  · exact fun he => nomatch he
  · exact fun he => nomatch he
  · rw [ExchangeFault.about, if_neg fun hs => h url body (by rw [hs])]
    exact fun he => nomatch he

/-- What is received of a reply. -/
theorem ends_received (url full : Url) : ∀ reply : Reply, ∃ answer, Ends subject reply answer
    ∧ ∀ result, (match received url full reply with
        | .ok text => Exchanges.done text
        | .error fault => .fail (fault.about subject)).Leads log result →
        log = [] ∧ result = answer
  | .dropped => by
      refine ⟨_, .failed (kind_about_of_ne ?_) (fun h => h) ?_, fun result h => h⟩
      · exact fun _ _ he => nomatch he
      · exact fun _ he => nomatch he
  | .answered status text => by
      rw [received]
      by_cases hstatus : 200 ≤ status ∧ status < 300
      · rw [if_pos hstatus]
        exact ⟨_, .counted ⟨hstatus.1, hstatus.2, rfl⟩, fun result h => h⟩
      · rw [if_neg hstatus]
        by_cases hmissing : status = 404
        · subst hmissing
          exact ⟨_, .missing text, fun result h => h⟩
        · refine ⟨_, .failed (kind_about_of_ne ?_) ?_ ?_, fun result h => h⟩
          · exact fun _ _ he => hmissing (ExchangeFault.refused.inj he).2.1
          · exact fun h => hstatus ⟨h.1, h.2.1⟩
          · exact fun _ he => hmissing (Reply.answered.inj he).1

/-- **One exchange.** -/
theorem leads_send {result : Except Error String}
    (h : (c.send subject method path parameters body).Leads log result) :
    c.Sends subject method path parameters body log result := by
  have hfault : ∀ {fault : ExchangeFault}, (∀ url text, fault ≠ .refused url 404 text) →
      c.request? method path parameters body = none →
      (Exchanges.fail (fault.about subject) : Exchanges String).Leads log result →
      c.Sends subject method path parameters body log result := by
    rintro fault hfault hnone ⟨rfl, rfl⟩
    exact .unsent hnone (kind_about_of_ne hfault)
  unfold send at h
  rcases hurl : c.base.join path with fault | url
  · rw [hurl] at h
    exact hfault (by rintro _ _ ⟨⟩) (by rw [request?, hurl]) h
  · rw [hurl] at h
    simp only at h
    split at h
    · next hweb =>
      obtain ⟨reply, rest, rfl, h⟩ := h
      obtain ⟨answer, hends, hanswer⟩ := ends_received url _ reply
      obtain ⟨rfl, rfl⟩ := hanswer result h
      exact .sent (by rw [request?, hurl]; exact if_pos hweb) hends
    · next hweb =>
      exact hfault (by rintro _ _ ⟨⟩) (by rw [request?, hurl]; exact if_neg hweb) h

/-- An exchange whose answer is put to use. -/
theorem leads_send_bind {f : String → α} {result : Except Error α}
    (h : (c.send subject method path parameters body >>= fun text => pure (f text)).Leads log
      result) :
    ∃ answer, c.Sends subject method path parameters body log answer ∧ result = answer.map f := by
  rcases h.bind with ⟨e, hsend, rfl⟩ | ⟨text, front, back, rfl, hsend, rfl, rfl⟩
  · exact ⟨_, leads_send hsend, rfl⟩
  · rw [List.append_nil]
    exact ⟨_, leads_send hsend, rfl⟩

theorem leads_getDocument {read : Typed α} {fallback : α} {result : Except Error α}
    (h : (c.getDocument subject path parameters read fallback).Leads log result) :
    ∃ answer, c.Sends subject .get path parameters none log answer
      ∧ result = answer.map (document read fallback) :=
  leads_send_bind h

/-- A document that is put to use: its exchange fails, or gets a reply that counts. -/
theorem leads_getDocument_bind {β : Type} {read : Typed α} {fallback : α} {f : α → Exchanges β}
    {result : Except Error β}
    (h : (c.getDocument subject path parameters read fallback >>= f).Leads log result) :
    (∃ e, c.Sends subject .get path parameters none log (.error e) ∧ result = .error e)
      ∨ ∃ text front back, log = front ++ back
        ∧ c.Sends subject .get path parameters none front (.ok text)
        ∧ (f (document read fallback text)).Leads back result := by
  rcases h.bind with ⟨e, hget, rfl⟩ | ⟨a, front, back, rfl, hget, hback⟩
  all_goals obtain ⟨sent, hsends, hsent⟩ := leads_getDocument hget
  · rcases sent with e' | text
    · obtain rfl : e = e' := Except.error.inj hsent
      exact .inl ⟨e, hsends, rfl⟩
    · cases hsent
  · rcases sent with e | text
    · cases hsent
    · obtain rfl : a = document read fallback text := Except.ok.inj hsent
      exact .inr ⟨text, front, back, rfl, hsends, hback⟩

/-- A document that is put to use without a further exchange. -/
theorem leads_document_bind {β : Type} {read : Typed α} {fallback : α} {f : α → Exchanges β}
    {g : String → Except Error β} {result : Except Error β}
    (hf : ∀ text, f (document read fallback text) = .ofExcept (g text))
    (h : (c.getDocument subject path parameters read fallback >>= f).Leads log result) :
    ∃ sent, c.Sends subject .get path parameters none log sent ∧ result = sent >>= g := by
  rcases leads_getDocument_bind h with ⟨e, hsends, rfl⟩ | ⟨text, front, back, rfl, hsends, h⟩
  · exact ⟨_, hsends, rfl⟩
  · rw [hf, Exchanges.leads_ofExcept] at h
    obtain ⟨rfl, rfl⟩ := h
    rw [List.append_nil]
    exact ⟨_, hsends, rfl⟩

theorem leads_delete {result : Except Error Unit} (h : (c.delete subject path).Leads log result) :
    ∃ answer, c.Sends subject .delete path [] none log answer ∧ result = answer.map fun _ => () :=
  leads_send_bind h

theorem leads_put {result : Except Error Unit} (h : (c.put subject path body).Leads log result) :
    ∃ answer, c.Sends subject .put path [] body log answer ∧ result = answer.map fun _ => () :=
  leads_send_bind h

/-- An exchange that succeeds sent its request and got a reply that counts. -/
theorem Sends.of_ok {text : String}
    (h : c.Sends subject method path parameters body log (.ok text)) :
    ∃ request reply, c.request? method path parameters body = some request
      ∧ log = [(request, reply)] ∧ Counts (· = text) reply := by
  rcases h with _ | ⟨h, ⟨hcounts⟩⟩
  exact ⟨_, _, h, rfl, hcounts⟩

/-- Over a connection that has addresses, an exchange sends its request. -/
theorem Sends.of_address {method' : Method} {path' : String} {parameters' : List (String × String)}
    {body' : Option Data} {request : Request} {answer : Except Error String}
    (h : c.Sends subject method path parameters body log answer)
    (haddress : c.request? method' path' parameters' body' = some request) :
    ∃ sent reply, c.request? method path parameters body = some sent ∧ log = [(sent, reply)] := by
  rcases h with ⟨hnone, -⟩ | ⟨hrequest, -⟩
  · exact absurd hnone (request?_ne_none haddress)
  · exact ⟨_, _, hrequest, rfl⟩

/-- An exchange whose reply counts succeeds. -/
theorem Sends.of_counts {Q : String → Prop} {request : Request} {reply : Reply}
    {rest : List (Request × Reply)} {answer : Except Error String}
    (h : c.Sends subject method path parameters body ((request, reply) :: rest) answer)
    (hcounts : Counts Q reply) : ∃ text, answer = .ok text ∧ Q text := by
  rcases h with _ | ⟨-, hends⟩
  rcases hends with ⟨htext⟩ | body | ⟨-, hnot, -⟩
  · exact ⟨_, rfl, hcounts.text htext⟩
  · exact absurd rfl (hcounts.ne_missing body)
  · exact absurd (hcounts.mono fun _ _ => trivial) hnot

/-! ## Trees that succeed only on replies that count -/

/-- **A tree that succeeds only where every reply counts.** -/
def Strict (t : Exchanges α) : Prop :=
  ∀ log a, t.Leads log (.ok a) → ∀ e ∈ log, Counts (fun _ => True) e.2

theorem strict_pure {a : α} : Strict (pure a) := by
  rintro log b ⟨rfl, -⟩ e he
  cases he

theorem strict_fail {error : Error} : Strict (.fail error : Exchanges α) := by
  rintro log b ⟨-, hb⟩
  cases hb

theorem Strict.bind {β : Type} {t : Exchanges α} {f : α → Exchanges β} (ht : Strict t)
    (hf : ∀ a, Strict (f a)) : Strict (t >>= f) := by
  intro log b h e he
  obtain ⟨a, front, back, rfl, hfront, hback⟩ := h.bind_ok
  exact (List.mem_append.1 he).elim (ht front a hfront e) (hf a back b hback e)

theorem Strict.mapError {f : Error → Error} {t : Exchanges α} (ht : Strict t) :
    Strict (t.mapError f) :=
  fun log a h => ht log a h.mapError_ok

theorem strict_send : Strict (c.send subject method path parameters body) := by
  intro log text h e he
  obtain ⟨request, reply, -, rfl, hcounts⟩ := (leads_send h).of_ok
  rw [List.mem_singleton.1 he]
  exact hcounts.mono fun _ _ => trivial

theorem strict_getDocument {read : Typed α} {fallback : α} :
    Strict (c.getDocument subject path parameters read fallback) :=
  strict_send.bind fun _ => strict_pure

theorem strict_delete : Strict (c.delete subject path) := strict_send.bind fun _ => strict_pure

theorem strict_pagesFrom {item : Typed α} :
    ∀ {left page : Nat}, Strict (c.pagesFrom subject path item left page)
  | 0, _ => strict_fail
  | left + 1, page => by
      refine strict_getDocument.bind fun batch => ?_
      split
      · exact strict_pure
      · exact strict_pagesFrom.bind fun _ => strict_pure

/-! ## Invariants of exchanges -/

/-- An exchange ends in the body of a reply that counts. -/
theorem meets_send {G : String → List Reply → Prop}
    (hP : ∀ r : Request, r.method = method → P r)
    (hG : ∀ text reply, Counts (· = text) reply → G text (heard ++ [reply])) :
    Exchanges.Meets P G heard (c.send subject method path parameters body) := by
  unfold send
  split
  · trivial
  · simp only
    split
    · refine ⟨hP _ rfl, fun reply => ?_⟩
      cases reply with
      | dropped => trivial
      | answered status text =>
        unfold received
        by_cases hstatus : 200 ≤ status ∧ status < 300
        · simp only [if_pos hstatus]
          exact hG _ _ ⟨hstatus.1, hstatus.2, rfl⟩
        · simp only [if_neg hstatus]
          trivial
    · trivial

theorem meets_delete :
    Exchanges.Meets (·.method = .delete) (fun _ _ => True) heard (c.delete subject path) :=
  .bind (meets_send (fun _ hr => hr) fun _ _ _ => trivial)

/-- A document is what a reply that counts is taken for. -/
theorem meets_getDocument {G : α → List Reply → Prop} {read : Typed α} {fallback : α}
    (hG : ∀ a reply, Counts (document read fallback · = a) reply → G a (heard ++ [reply])) :
    Exchanges.Meets (·.method = .get) G heard
      (c.getDocument subject path parameters read fallback) := by
  refine .bind (meets_send (fun _ hr => hr) fun text reply hreply => ?_)
  exact hG _ reply (hreply.mono fun body hbody => hbody ▸ rfl)

/-! ## Listings -/

/-- **Replies without items** — the pages of a listing that comes back empty. -/
structure Bare (Q : String → Prop) (replies : List Reply) : Prop where
  some : replies ≠ []
  each : ∀ reply ∈ replies, Counts Q reply

theorem Bare.mono {Q Q' : String → Prop} {replies : List Reply}
    (hQ : ∀ body, Q body → Q' body) (h : Bare Q replies) : Bare Q' replies :=
  ⟨h.some, fun reply hr => (h.each reply hr).mono hQ⟩

/-- **A listing that comes back empty** was put together from pages without items. -/
theorem meets_pagesFrom {item : Typed α} :
    ∀ (left page : Nat) (heard : List Reply),
      Exchanges.Meets (·.method = .get)
        (fun items heard' => ∃ new, heard' = heard ++ new ∧
          (items = [] → Bare (document (.list item) [] · = []) new))
        heard (c.pagesFrom subject path item left page)
  | 0, _, _ => trivial
  | left + 1, page, heard => by
      refine .bind (meets_getDocument fun batch reply hreply => ?_)
      split
      · refine ⟨[reply], rfl, fun hbatch => ⟨List.cons_ne_nil _ _, fun r hr => ?_⟩⟩
        rw [List.mem_singleton.1 hr]
        exact hreply.mono fun body hbody => hbody.trans hbatch
      · refine .bind ((meets_pagesFrom left (page + 1) _).mono fun items heard' hitems => ?_)
        obtain ⟨new, rfl, hbare⟩ := hitems
        refine ⟨reply :: new, by rw [List.append_assoc, List.singleton_append], fun hnil => ?_⟩
        obtain ⟨hbatch, hitems⟩ := List.append_eq_nil_iff.1 hnil
        refine ⟨List.cons_ne_nil _ _, fun r hr => ?_⟩
        rcases List.mem_cons.1 hr with rfl | hr
        · rw [hbatch] at hreply
          exact hreply
        · exact (hbare hitems).each r hr

/-- The items that a reply says. -/
def itemsOf (item : Typed α) : Reply → List α
  | .dropped => []
  | .answered _ body => document (.list item) [] (withoutMark body)

/-- **The items that replies say**, page by page. -/
def itemsHeard (item : Typed α) (replies : List Reply) : List α := replies.flatMap (itemsOf item)

theorem itemsOf_of_counts {item : Typed α} {text : String} :
    ∀ {reply : Reply}, Counts (· = text) reply → itemsOf item reply = document (.list item) [] text
  | .answered _ _, ⟨_, _, htext⟩ => congrArg (document (.list item) []) htext

/-- **A listing that succeeds is what its pages say.** -/
theorem leads_pagesFrom {item : Typed α} :
    ∀ {left page : Nat} {log : List (Request × Reply)} {items : List α},
      (c.pagesFrom subject path item left page).Leads log (.ok items) →
        items = itemsHeard item (log.map Prod.snd)
          ∧ (∀ e ∈ log, e.1.method = .get) ∧ (c.request? .get path [] none).isSome
  | 0, _, _, _, h => nomatch h.2
  | left + 1, page, log, items, h => by
      obtain ⟨batch, front, back, rfl, hfront, h⟩ := h.bind_ok
      obtain ⟨answer, hsends, hbatch⟩ := leads_getDocument hfront
      rcases answer with e | text
      · cases hbatch
      obtain ⟨request, reply, hrequest, rfl, hcounts⟩ := hsends.of_ok
      obtain rfl : batch = document (.list item) [] text := Except.ok.inj hbatch
      have hget := (of_request? hrequest).1
      have hsome : (c.request? .get path [] none).isSome :=
        isSome_request?_iff.2 (isSome_request?_iff.1 (Option.isSome_of_eq_some hrequest))
      rw [← itemsOf_of_counts hcounts] at h
      split at h
      · obtain ⟨rfl, hitems⟩ := h
        refine ⟨?_, fun e he => by rw [List.mem_singleton.1 he]; exact hget, hsome⟩
        rw [Except.ok.inj hitems]
        exact (List.append_nil _).symm
      · obtain ⟨rest, front, back, rfl, hrest, rfl, hitems⟩ := h.bind_ok
        obtain ⟨rfl, hgets, -⟩ := leads_pagesFrom hrest
        rw [List.append_nil, Except.ok.inj hitems]
        exact ⟨rfl, List.forall_mem_cons.2 ⟨hget, hgets⟩, hsome⟩

end RegistryFleet.Web.Connection
