import RegistryFleet.Proofs.Web.Connection
import RegistryFleet.Vendor.Adapter

/-!
# Proofs/Vendor/Adapter — calls as exchanges

A call through a connection is a tree of exchanges, and a tree of calls is one such tree after
another.

* `Connection.exchanged` — the exchanges of a call.
* `Calls.Leads` — the exchanges that a tree of calls goes through, and the value at its end.
-/

namespace RegistryFleet

open Web (Connection Exchanges Reply Request)

variable {α β σ : Type} {c : Connection}

namespace Web.Connection

/-! ## One call -/

/-- **The exchanges of a call**, in order. -/
def exchanged (c : Connection) (replier : Exchanges.Replier σ) (s : σ) (call : Call) :
    List (Request × Reply) :=
  ((c.exchanges call).run (Exchanges.recorded replier) (s, [])).2.2

/-- The exchanges of a call lead to its answer. -/
theorem leads_exchanged (replier : Exchanges.Replier σ) (s : σ) (call : Call) :
    (c.exchanges call).Leads (c.exchanged replier s call) (c.serve replier call s).1 := by
  obtain ⟨new, hnew, hleads⟩ := Exchanges.leads_run replier (c.exchanges call) s []
  rw [List.nil_append] at hnew
  rw [(Exchanges.run_recorded replier (c.exchanges call) s []).1] at hleads
  rw [exchanged, hnew]
  exact hleads

end Web.Connection

namespace Calls

/-! ## Trees of calls -/

/-- **A record of a tree of calls** — the exchanges it goes through and the value at its end. -/
def Leads (c : Connection) : Calls α → List (Request × Reply) → α → Prop
  | done a, log, result => log = [] ∧ result = a
  | ask call next, log, result => ∃ answer front back, log = front ++ back
      ∧ (c.exchanges call).Leads front answer ∧ Leads c (next answer) back result

/-- The record of a sequence. -/
theorem Leads.bind {f : α → Calls β} {result : β} :
    ∀ {t : Calls α} {log : List (Request × Reply)}, (t.bind f).Leads c log result →
      ∃ a front back, log = front ++ back ∧ t.Leads c front a ∧ (f a).Leads c back result
  | .done a, log, h => ⟨a, [], log, rfl, ⟨rfl, rfl⟩, h⟩
  | .ask call next, _, ⟨answer, front, back, hlog, hcall, h⟩ => by
      obtain ⟨a, middle, back, rfl, ht, hf⟩ := Leads.bind h
      refine ⟨a, front ++ middle, back, ?_, ⟨answer, front, middle, rfl, hcall, ht⟩, hf⟩
      rw [hlog, List.append_assoc]

theorem leads_one {call : Call} {log : List (Request × Reply)} {answer : call.Answer} :
    (one call).Leads c log answer ↔ (c.exchanges call).Leads log answer := by
  constructor
  · rintro ⟨answer, front, back, rfl, h, rfl, rfl⟩
    rwa [List.append_nil]
  · intro h
    exact ⟨answer, log, [], (List.append_nil log).symm, h, rfl, rfl⟩

/-- The record of a sequence whose first part may fail. -/
theorem Leads.andThen_ok {t : Calls (Except Error α)} {f : α → Calls (Except Error β)}
    {log : List (Request × Reply)} {b : β} (h : (t.andThen f).Leads c log (.ok b)) :
    ∃ a front back, log = front ++ back ∧ t.Leads c front (.ok a) ∧ (f a).Leads c back (.ok b) := by
  obtain ⟨r, front, back, rfl, ht, hf⟩ := Leads.bind h
  rcases r with e | a
  · cases hf.2
  · exact ⟨a, front, back, rfl, ht, hf⟩

/-- **A run leaves a record** of the tree of calls. -/
theorem leads_run (replier : Exchanges.Replier σ) :
    ∀ (t : Calls α) (s : σ) (log : List (Request × Reply)), ∃ new,
      (t.run (c.serve (Exchanges.recorded replier)) (s, log)).2.2 = log ++ new
        ∧ t.Leads c new (t.run (c.serve (Exchanges.recorded replier)) (s, log)).1
  | .done _, _, log => ⟨[], (List.append_nil log).symm, rfl, rfl⟩
  | .ask call next, s, log => by
      obtain ⟨front, hfront, hcall⟩ := Exchanges.leads_run replier (c.exchanges call) s log
      obtain ⟨back, hback, h⟩ := leads_run replier
        (next (c.serve (Exchanges.recorded replier) call (s, log)).1)
        (c.serve (Exchanges.recorded replier) call (s, log)).2.1
        (c.serve (Exchanges.recorded replier) call (s, log)).2.2
      refine ⟨front ++ back, ?_, _, front, back, rfl, hcall, h⟩
      rw [← List.append_assoc, ← hfront]
      exact hback

end Calls

end RegistryFleet
