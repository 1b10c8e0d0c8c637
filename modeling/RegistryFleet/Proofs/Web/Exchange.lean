import RegistryFleet.Web.Exchange

/-!
# Proofs/Web/Exchange — what a tree of exchanges comes to, whoever replies

A tree says what is sent and nothing about who replies, so what can be said of it holds for any
replies. Two ways to say it:

* `Exchanges.Meets` — an invariant: every request is of a kind, and the value at the end goes with
  the replies heard.
* `Exchanges.Leads` — the record itself: these exchanges, in this order, lead to this end.

Every run leaves a record that the tree leads through (`leads_run`), and two records in which the
same requests got the same replies are one (`Leads.unique`).
-/

namespace RegistryFleet.Web.Exchanges

variable {α β σ : Type} {P : Request → Prop} {G : α → List Reply → Prop} {heard : List Reply}

instance : LawfulMonad Exchanges :=
  LawfulMonad.mk' Exchanges bind_done (fun _ _ => rfl) bind_assoc

/-! ## Invariants -/

/-- **What a tree comes to, whoever replies** — every request meets `P`, and the value at its end
goes with the replies that were heard. -/
def Meets (P : Request → Prop) (G : α → List Reply → Prop) : List Reply → Exchanges α → Prop
  | heard, done a => G a heard
  | _, fail _ => True
  | heard, send r next => P r ∧ ∀ reply, Meets P G (heard ++ [reply]) (next reply)

theorem Meets.mono {G' : α → List Reply → Prop} (hG : ∀ a heard, G a heard → G' a heard) :
    ∀ {t : Exchanges α} {heard : List Reply}, Meets P G heard t → Meets P G' heard t
  | .done a, _, h => hG a _ h
  | .fail _, _, _ => trivial
  | .send _ _, _, h => ⟨h.1, fun reply => Meets.mono hG (h.2 reply)⟩

theorem Meets.bind {G : β → List Reply → Prop} {f : α → Exchanges β} :
    ∀ {t : Exchanges α} {heard : List Reply},
      Meets P (fun a heard => Meets P G heard (f a)) heard t → Meets P G heard (t >>= f)
  | .done _, _, h => h
  | .fail _, _, _ => trivial
  | .send _ _, _, h => ⟨h.1, fun reply => Meets.bind (h.2 reply)⟩

theorem Meets.mapError {f : Error → Error} :
    ∀ {t : Exchanges α} {heard : List Reply}, Meets P G heard t → Meets P G heard (t.mapError f)
  | .done _, _, h => h
  | .fail _, _, _ => trivial
  | .send _ _, _, h => ⟨h.1, fun reply => Meets.mapError (h.2 reply)⟩

/-! ## Records -/

/-- **A record of a tree** — the exchanges it goes through and the end that they lead to. -/
def Leads : Exchanges α → List (Request × Reply) → Except Error α → Prop
  | done a, log, result => log = [] ∧ result = .ok a
  | fail e, log, result => log = [] ∧ result = .error e
  | send r next, log, result =>
    ∃ reply rest, log = (r, reply) :: rest ∧ Leads (next reply) rest result

@[simp] theorem leads_pure {a : α} {log : List (Request × Reply)} {result : Except Error α} :
    (pure a : Exchanges α).Leads log result ↔ log = [] ∧ result = .ok a := Iff.rfl

@[simp] theorem leads_fail {e : Error} {log : List (Request × Reply)} {result : Except Error α} :
    (fail e : Exchanges α).Leads log result ↔ log = [] ∧ result = .error e := Iff.rfl

@[simp] theorem leads_ofExcept : ∀ {x : Except Error α} {log : List (Request × Reply)}
    {result : Except Error α}, (ofExcept x).Leads log result ↔ log = [] ∧ result = x
  | .ok _, _, _ => Iff.rfl
  | .error _, _, _ => Iff.rfl

/-- **The record of a sequence** — it ends in a failure of the first part, or the second part takes
over from the value of the first. -/
theorem Leads.bind {f : α → Exchanges β} {result : Except Error β} :
    ∀ {t : Exchanges α} {log : List (Request × Reply)}, (t >>= f).Leads log result →
      (∃ e, t.Leads log (.error e) ∧ result = .error e)
        ∨ ∃ a front back, log = front ++ back ∧ t.Leads front (.ok a) ∧ (f a).Leads back result
  | .done a, log, h => .inr ⟨a, [], log, rfl, ⟨rfl, rfl⟩, h⟩
  | .fail e, _, h => .inl ⟨e, ⟨h.1, rfl⟩, h.2⟩
  | .send r next, _, ⟨reply, rest, hlog, h⟩ => by
      rcases Leads.bind h with ⟨e, ht, he⟩ | ⟨a, front, back, hrest, ht, hf⟩
      · exact .inl ⟨e, ⟨reply, rest, hlog, ht⟩, he⟩
      · refine .inr ⟨a, (r, reply) :: front, back, ?_, ⟨reply, front, rfl, ht⟩, hf⟩
        rw [hlog, hrest, List.cons_append]

/-- The record of a sequence that ends in a value. -/
theorem Leads.bind_ok {f : α → Exchanges β} {t : Exchanges α} {log : List (Request × Reply)}
    {b : β} (h : (t >>= f).Leads log (.ok b)) :
    ∃ a front back, log = front ++ back ∧ t.Leads front (.ok a) ∧ (f a).Leads back (.ok b) := by
  rcases h.bind with ⟨e, -, he⟩ | h
  · cases he
  · exact h

theorem Leads.mapError_ok {f : Error → Error} {a : α} :
    ∀ {t : Exchanges α} {log : List (Request × Reply)},
      (t.mapError f).Leads log (.ok a) → t.Leads log (.ok a)
  | .done _, _, h => h
  | .send _ _, _, ⟨reply, rest, hlog, h⟩ => ⟨reply, rest, hlog, Leads.mapError_ok h⟩

/-- A record bears out what holds whoever replies. -/
theorem Meets.of_leads : ∀ {t : Exchanges α} {heard : List Reply} {log : List (Request × Reply)}
    {result : Except Error α}, Meets P G heard t → t.Leads log result →
      (∀ e ∈ log, P e.1) ∧ ∀ a, result = .ok a → G a (heard ++ log.map Prod.snd)
  | .done a, _, _, _, h, ⟨rfl, rfl⟩ => by
      refine ⟨fun e he => absurd he List.not_mem_nil, fun b hb => ?_⟩
      obtain rfl : a = b := Except.ok.inj hb
      rwa [List.map_nil, List.append_nil]
  | .fail _, _, _, _, _, ⟨rfl, rfl⟩ =>
      ⟨fun e he => absurd he List.not_mem_nil, fun _ ha => nomatch ha⟩
  | .send _ _, _, _, _, ⟨hr, hnext⟩, ⟨reply, rest, rfl, h⟩ => by
      obtain ⟨hP, hG⟩ := Meets.of_leads (hnext reply) h
      refine ⟨List.forall_mem_cons.2 ⟨hr, hP⟩, fun a ha => ?_⟩
      rw [List.map_cons, List.append_cons]
      exact hG a ha

/-! ## Runs -/

/-- The replier, with a record of all exchanges. -/
def recorded (replier : Replier σ) : Replier (σ × List (Request × Reply)) := fun r s =>
  let (reply, t) := replier r s.1
  (reply, t, s.2 ++ [(r, reply)])

/-- **A run leaves a record** that the tree leads through to the end of the run. -/
theorem leads_run (replier : Replier σ) :
    ∀ (t : Exchanges α) (s : σ) (log : List (Request × Reply)), ∃ new,
      (t.run (recorded replier) (s, log)).2.2 = log ++ new
        ∧ t.Leads new (t.run (recorded replier) (s, log)).1
  | .done _, _, log => ⟨[], (List.append_nil log).symm, rfl, rfl⟩
  | .fail _, _, log => ⟨[], (List.append_nil log).symm, rfl, rfl⟩
  | .send r next, s, log => by
      obtain ⟨new, hlog, h⟩ := leads_run replier (next (replier r s).1) (replier r s).2
        (log ++ [(r, (replier r s).1)])
      exact ⟨(r, (replier r s).1) :: new, by rw [List.append_cons]; exact hlog, _, _, rfl, h⟩

/-- A run goes the same way without a record. -/
theorem run_recorded (replier : Replier σ) :
    ∀ (t : Exchanges α) (s : σ) (log : List (Request × Reply)),
      (t.run (recorded replier) (s, log)).1 = (t.run replier s).1
        ∧ (t.run (recorded replier) (s, log)).2.1 = (t.run replier s).2
  | .done _, _, _ => ⟨rfl, rfl⟩
  | .fail _, _, _ => ⟨rfl, rfl⟩
  | .send r next, s, _ => run_recorded replier (next (replier r s).1) (replier r s).2 _

/-- **The record of a run** — its exchanges, in order. -/
def record (replier : Replier σ) (t : Exchanges α) (s : σ) : List (Request × Reply) :=
  (t.run (recorded replier) (s, [])).2.2

/-- A run adds its record to what was recorded before. -/
theorem run_recorded_log (replier : Replier σ) :
    ∀ (t : Exchanges α) (s : σ) (log : List (Request × Reply)),
      (t.run (recorded replier) (s, log)).2.2 = log ++ t.record replier s
  | .done _, _, log => (List.append_nil log).symm
  | .fail _, _, log => (List.append_nil log).symm
  | .send r next, s, log => by
      have htail := run_recorded_log replier (next (replier r s).1) (replier r s).2
      refine (htail (log ++ [(r, (replier r s).1)])).trans ?_
      rw [List.append_assoc]
      exact congrArg (log ++ ·) (htail [(r, (replier r s).1)]).symm

/-- The record of a tree that sends begins with what it sends. -/
theorem record_send (replier : Replier σ) (r : Request) (next : Reply → Exchanges α) (s : σ) :
    (send r next).record replier s
      = (r, (replier r s).1) :: (next (replier r s).1).record replier (replier r s).2 :=
  run_recorded_log replier (next (replier r s).1) (replier r s).2 [(r, (replier r s).1)]

@[simp] theorem record_pure (replier : Replier σ) (a : α) (s : σ) :
    (pure a : Exchanges α).record replier s = [] := rfl

@[simp] theorem record_fail (replier : Replier σ) (e : Error) (s : σ) :
    (fail e : Exchanges α).record replier s = [] := rfl

theorem run_send (replier : Replier σ) (r : Request) (next : Reply → Exchanges α) (s : σ) :
    (send r next).run replier s = (next (replier r s).1).run replier (replier r s).2 := rfl

/-- What is made of the value at the end leaves no record. -/
theorem record_map (replier : Replier σ) (f : α → β) : ∀ (t : Exchanges α) (s : σ),
    (t >>= fun a => pure (f a)).record replier s = t.record replier s
  | .done _, _ => rfl
  | .fail _, _ => rfl
  | .send r next, s => by
      have htail := record_map replier f (next (replier r s).1) (replier r s).2
      rw [record_send, ← htail]
      exact record_send replier r (fun reply => next reply >>= fun a => pure (f a)) s

theorem run_map (replier : Replier σ) (f : α → β) (t : Exchanges α) (s : σ) :
    (t >>= fun a => pure (f a)).run replier s
      = ((t.run replier s).1.map f, (t.run replier s).2) := by
  change (t.bind fun a => done (f a)).run replier s = _
  rw [run_bind]
  rcases t.run replier s with ⟨e | a, s'⟩ <;> rfl

/-- The run of a sequence whose first part ends in a value. -/
theorem run_bind_ok {replier : Replier σ} {t : Exchanges α} {f : α → Exchanges β} {s : σ} {a : α}
    (h : (t.run replier s).1 = .ok a) :
    (t >>= f).run replier s = (f a).run replier (t.run replier s).2 := by
  change (t.bind f).run replier s = _
  rw [run_bind]
  rcases ht : t.run replier s with ⟨answer, s'⟩
  rw [ht] at h
  obtain rfl : answer = .ok a := h
  rfl

/-- The first part of a sequence that ends in a value does, too. -/
theorem ok_of_run_bind {replier : Replier σ} {t : Exchanges α} {f : α → Exchanges β} {s : σ}
    {b : β} (h : ((t >>= f).run replier s).1 = .ok b) : ∃ a, (t.run replier s).1 = .ok a := by
  change ((t.bind f).run replier s).1 = _ at h
  rw [run_bind] at h
  rcases ht : t.run replier s with ⟨err | a, s'⟩
  · rw [ht] at h
    cases h
  · exact ⟨a, rfl⟩

/-- **The record of a run** bears out what holds whoever replies. -/
theorem Meets.run (replier : Replier σ) {t : Exchanges α} {heard : List Reply} (s : σ)
    (log : List (Request × Reply)) (h : Meets P G heard t) :
    ∃ new, (t.run (recorded replier) (s, log)).2.2 = log ++ new ∧ (∀ e ∈ new, P e.1)
      ∧ ∀ a, (t.run (recorded replier) (s, log)).1 = .ok a → G a (heard ++ new.map Prod.snd) := by
  obtain ⟨new, hlog, hleads⟩ := leads_run replier t s log
  exact ⟨new, hlog, h.of_leads hleads⟩

/-! ## Repliers that keep to what they said -/

/-- **The same requests got the same replies.** -/
def Agree (log log' : List (Request × Reply)) : Prop :=
  ∀ e ∈ log, ∀ e' ∈ log', e.1 = e'.1 → e.2 = e'.2

theorem Agree.mono {log log' front front' : List (Request × Reply)} (h : Agree log log')
    (hfront : front ⊆ log) (hfront' : front' ⊆ log') : Agree front front' :=
  fun e he e' he' => h e (hfront he) e' (hfront' he')

/-- **Records that agree are one**: a tree that hears the same goes the same way. -/
theorem Leads.unique : ∀ {t : Exchanges α} {log log' : List (Request × Reply)}
    {result result' : Except Error α}, t.Leads log result → t.Leads log' result' →
      Agree log log' → log = log' ∧ result = result'
  | .done _, _, _, _, _, ⟨rfl, rfl⟩, ⟨rfl, rfl⟩, _ => ⟨rfl, rfl⟩
  | .fail _, _, _, _, _, ⟨rfl, rfl⟩, ⟨rfl, rfl⟩, _ => ⟨rfl, rfl⟩
  | .send _ _, _, _, _, _, ⟨reply, rest, rfl, h⟩, ⟨reply', rest', rfl, h'⟩, hagree => by
      obtain rfl : reply = reply' := hagree _ List.mem_cons_self _ List.mem_cons_self rfl
      have htail := hagree.mono (List.subset_cons_self _ rest) (List.subset_cons_self _ rest')
      obtain ⟨rfl, rfl⟩ := Leads.unique h h' htail
      exact ⟨rfl, rfl⟩

/-- A sequence whose first part was heard before goes on from where that part ended. -/
theorem Leads.resume {t : Exchanges α} {f : α → Exchanges β} {front log : List (Request × Reply)}
    {a : α} {result : Except Error β} (ht : t.Leads front (.ok a)) (h : (t >>= f).Leads log result)
    (hagree : Agree front log) : ∃ back, log = front ++ back ∧ (f a).Leads back result := by
  rcases h.bind with ⟨e, ht', -⟩ | ⟨a', front', back, rfl, ht', hf⟩
  · cases (ht.unique ht' hagree).2
  · have hfront := hagree.mono (List.Subset.refl front) (List.subset_append_left front' back)
    obtain ⟨rfl, ha⟩ := ht.unique ht' hfront
    obtain rfl := Except.ok.inj ha
    exact ⟨back, rfl, hf⟩

end RegistryFleet.Web.Exchanges
