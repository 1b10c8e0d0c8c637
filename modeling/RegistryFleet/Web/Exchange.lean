import RegistryFleet.Data
import RegistryFleet.Fleet.Error
import RegistryFleet.Web.Url

/-!
# Web/Exchange — requests and replies

What is asked of a vendor's interface is a tree of exchanges: each node sends one request and goes
on according to the reply. A tree says what is sent and nothing about who replies.

* `Exchanges.run_bind` — a run of a sequence is the sequence of the runs, and a failure ends it.
-/

namespace RegistryFleet.Web

/-- What a request does with its address. -/
inductive Method
  | get
  | post
  | put
  | delete
  deriving DecidableEq, Repr

/-- The name of a method. -/
def Method.label : Method → String
  | get => "GET"
  | post => "POST"
  | put => "PUT"
  | delete => "DELETE"

/-- **A request**, as it is sent. -/
structure Request where
  method : Method
  url : Url
  /-- A document, sent as JSON. -/
  body : Option Data
  authorization : String
  userAgent : String
  deriving Repr

namespace Request

/-- What the body is said to be. -/
def contentType (r : Request) : Option String := r.body.map fun _ => "application/json"

/-- Method and address. -/
def line (r : Request) : String := r.method.label ++ " " ++ r.url.requested

end Request

/-- **What comes back for a request**, after all redirects that the client follows of its own
accord. Headers are not part of it: what the client makes of them, such as a redirect or a coding of
the body, is behind it here. -/
inductive Reply
  /-- Nothing: the connection fails or is closed. -/
  | dropped
  | answered (status : Nat) (body : String)
  deriving DecidableEq, Repr

/-- **A tree of exchanges** that ends in a value or in a failure. -/
inductive Exchanges (α : Type)
  | done (value : α)
  | fail (error : Error)
  /-- Send the request and go on with the reply. -/
  | send (request : Request) (next : Reply → Exchanges α)

namespace Exchanges

variable {α β σ : Type}

/-- Goes on with `f` where the tree ends in a value. -/
def bind : Exchanges α → (α → Exchanges β) → Exchanges β
  | done a, f => f a
  | fail e, _ => fail e
  | send r next, f => send r fun reply => (next reply).bind f

instance : Monad Exchanges where
  pure := done
  bind := bind

/-- A value or a failure, without any exchange. -/
def ofExcept : Except Error α → Exchanges α
  | .ok a => done a
  | .error e => fail e

/-- The tree with `f` applied to its failures. -/
def mapError (f : Error → Error) : Exchanges α → Exchanges α
  | done a => done a
  | fail e => fail (f e)
  | send r next => send r fun reply => (next reply).mapError f

/-- Something that replies and changes by doing so. One reply stands for a request and all that its
redirects lead to. -/
abbrev Replier (σ : Type) : Type := Request → σ → Reply × σ

/-- **The run of a tree.** -/
def run (replier : Replier σ) : Exchanges α → σ → Except Error α × σ
  | done a, s => (.ok a, s)
  | fail e, s => (.error e, s)
  | send r next, s =>
    let (reply, s) := replier r s
    (next reply).run replier s

theorem bind_done (t : Exchanges α) : t.bind done = t := by
  induction t with
  | done a => rfl
  | fail e => rfl
  | send r next ih => simp [bind, ih]

theorem bind_assoc {γ : Type} (t : Exchanges α) (f : α → Exchanges β) (g : β → Exchanges γ) :
    (t.bind f).bind g = t.bind fun a => (f a).bind g := by
  induction t with
  | done a => rfl
  | fail e => rfl
  | send r next ih => simp [bind, ih]

theorem run_bind (replier : Replier σ) (t : Exchanges α) (f : α → Exchanges β) (s : σ) :
    (t.bind f).run replier s
      = match t.run replier s with
        | (.ok a, s) => (f a).run replier s
        | (.error e, s) => (.error e, s) := by
  induction t generalizing s with
  | done a => rfl
  | fail e => rfl
  | send r next ih => simp [bind, run, ih]

end Exchanges

end RegistryFleet.Web
