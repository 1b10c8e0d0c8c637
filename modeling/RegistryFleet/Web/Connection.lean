import RegistryFleet.Fleet.Registry
import RegistryFleet.Json.Typed
import RegistryFleet.Text.Base64
import RegistryFleet.Text.Blank
import RegistryFleet.Web.Exchange
import RegistryFleet.Web.Settings

/-!
# Web/Connection — speaking to the interface of a registry

A connection knows the address of a registry and who is speaking. A reply counts if its status is
between 200 and 299; a document that cannot be understood then counts as an empty one, so the
meaning of a listing never depends on more than its status and what it does hold.
-/

namespace RegistryFleet.Web

open Json (Typed)

/-- **Why an exchange failed.** Addresses are given as they were asked for, and in full, with
parameters, where they were sent. -/
inductive ExchangeFault
  /-- There is no such address. -/
  | unreadable (url : String) (fault : UrlFault)
  /-- Requests cannot be sent to such an address. -/
  | unsendable (url full : String)
  /-- No reply came. -/
  | unanswered (url full : String)
  /-- The reply was a refusal. -/
  | refused (url : String) (status : Nat) (body : String)
  deriving DecidableEq, Repr

/-- What a request is about: the entity that is missing when the reply says so. -/
structure Subject where
  entity : String
  name : String
  deriving DecidableEq, Repr

namespace ExchangeFault

/-- The wording. -/
def message : ExchangeFault → String
  | unreadable url fault => "invalid URL '" ++ url ++ "': " ++ fault.message
  | unsendable url full =>
    "request to " ++ url ++ " failed: builder error for url (" ++ full ++ ")"
  | unanswered url full =>
    "request to " ++ url ++ " failed: error sending request for url (" ++ full ++ ")"
  | refused url status body =>
    "HTTP error from " ++ url ++ ": " ++ toString status ++ " - " ++ body

/-- **The failure of the operation** that needed the exchange. -/
def about (subject : Subject) : ExchangeFault → Error
  | refused url status body =>
    if status = 404 then .notFound subject.entity subject.name
    else .recoverable (refused url status body).message
  | unreadable url fault => .configuration (unreadable url fault).message
  | fault => .recoverable fault.message

end ExchangeFault

/-- **A connection to the interface of a registry.** -/
structure Connection where
  registry : Registry
  /-- The address that all paths are relative to. -/
  base : Url
  userAgent : String
  /-- How many items a page of a listing has. -/
  pageSize : Nat
  /-- How many pages of one listing are asked for at most. -/
  pageLimit : Nat

namespace Connection

/-- The most pages that a counter of 64 bits can number, from 1 on. -/
def pagesCountable : Nat := Nat.pow 2 64 - 1

theorem pagesCountable_pos : 0 < pagesCountable := by decide

/-- Can the text stand in a header? -/
def isHeaderText (s : String) : Bool :=
  s.toList.all fun c => c == '\t' || (32 ≤ c.toNat && c.toNat != 127)

/-- **The connection to a registry**, if its address can be understood. -/
def ofRegistry (registry : Registry) (settings : ClientSettings) : Except Error Connection :=
  match Url.parse registry.endpoint with
  | .error fault => .error (.configuration ("registry '" ++ registry.name
      ++ "' has an invalid API endpoint '" ++ registry.endpoint ++ "': " ++ fault.message))
  | .ok base =>
    if isHeaderText settings.userAgent then
      .ok ⟨registry, base, settings.userAgent, settings.pageSize, pagesCountable⟩
    else .error (.configuration "failed to build HTTP client: builder error")

/-- The header that says who is speaking. -/
def authorization (c : Connection) : String :=
  "Basic " ++ Text.Base64.encode c.registry.credentials.pair

/-- A text without the mark that may stand at its beginning. -/
def withoutMark (s : String) : String :=
  match s.toList with
  | '\uFEFF' :: rest => String.ofList rest
  | _ => s

/-- The body of a reply that counts. -/
def received (url full : Url) : Reply → Except ExchangeFault String
  | .dropped => .error (.unanswered url.text full.text)
  | .answered status body =>
    if 200 ≤ status ∧ status < 300 then .ok (withoutMark body)
    else .error (.refused url.text status (withoutMark body))

/-- **One exchange** — the body of the reply. -/
def send (c : Connection) (subject : Subject) (method : Method) (path : String)
    (parameters : List (String × String)) (body : Option Data) : Exchanges String :=
  match c.base.join path with
  | .error fault => .fail ((ExchangeFault.unreadable (c.base.text ++ path) fault).about subject)
  | .ok url =>
    let full := (url.withParameters parameters).withoutUserinfo
    if full.isWeb then
      .send ⟨method, full, body, c.authorization, c.userAgent⟩ fun reply =>
        match received url full reply with
        | .ok text => .done text
        | .error fault => .fail (fault.about subject)
    else .fail ((ExchangeFault.unsendable url.text full.text).about subject)

/-- The document of a body, or what counts when there is none that can be understood. -/
def document {α : Type} (read : Typed α) (fallback : α) (body : String) : α :=
  if Text.allBlank body then fallback else (read.read body).toOption.getD fallback

/-- Asks for a document. -/
def getDocument {α : Type} (c : Connection) (subject : Subject) (path : String)
    (parameters : List (String × String)) (read : Typed α) (fallback : α) : Exchanges α := do
  return document read fallback (← c.send subject .get path parameters none)

/-- Sends a document and reads the one that comes back. -/
def postDocument {α : Type} (c : Connection) (subject : Subject) (path : String) (body : Data)
    (read : Typed α) (fallback : α) : Exchanges α := do
  return document read fallback (← c.send subject .post path [] (some body))

/-- Sends a document. -/
def post (c : Connection) (subject : Subject) (path : String) (body : Data) : Exchanges Unit := do
  let _ ← c.send subject .post path [] (some body)

/-- Puts a document in place, or nothing. -/
def put (c : Connection) (subject : Subject) (path : String) (body : Option Data) :
    Exchanges Unit := do
  let _ ← c.send subject .put path [] body

/-- Has something deleted. -/
def delete (c : Connection) (subject : Subject) (path : String) : Exchanges Unit := do
  let _ ← c.send subject .delete path [] none

/-! ## Listings by the page -/

/-- The failure of a listing that has more pages than are asked for. -/
def endless (path : String) : Error := .recoverable ("the listing " ++ path ++ " does not end")

/-- The items from a page on, with so many pages left to ask for. A page that is not full is the
last one. -/
def pagesFrom {α : Type} (c : Connection) (subject : Subject) (path : String) (item : Typed α) :
    (left page : Nat) → Exchanges (List α)
  | 0, _ => .fail (endless path)
  | left + 1, page => do
    let parameters := [("page", toString page), ("page_size", toString c.pageSize)]
    let batch ← c.getDocument subject path parameters (.list item) []
    if batch.length < c.pageSize then return batch
    else return batch ++ (← pagesFrom c subject path item left (page + 1))

/-- **All items of a listing**, page by page. -/
def listing {α : Type} (c : Connection) (subject : Subject) (path : String) (item : Typed α) :
    Exchanges (List α) :=
  c.pagesFrom subject path item c.pageLimit 1

end Connection

end RegistryFleet.Web
