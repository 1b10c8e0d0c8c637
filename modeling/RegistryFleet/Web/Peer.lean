import RegistryFleet.Keyed
import RegistryFleet.Web.Exchange

/-!
# Web/Peer — a scripted other side

A scripted peer has a list of replies for each request line; the n-th request with that line gets
the n-th of them, later ones the last. It keeps a log of what it was sent. A peer that cannot be
reached sees nothing and leaves every request unanswered.
-/

namespace RegistryFleet.Web

/-- **A scripted peer.** What it says in reply to a request is what the client hands over for it. -/
structure Peer where
  reachable : Bool
  /-- Replies by request line. -/
  script : Keyed (List Reply)
  /-- The reply for all other requests. -/
  otherwise : Reply
  /-- What was sent so far, in order. -/
  log : List Request

namespace Peer

/-- What is said where there is nothing. -/
def nothingThere : Reply := .answered 404 ""

/-- The peer that cannot be reached. -/
def absent : Peer := ⟨false, .empty, nothingThere, []⟩

/-- The peer of a script. -/
def scripted (script : Keyed (List Reply)) (otherwise : Reply) : Peer :=
  ⟨true, script, otherwise, []⟩

/-- The reply for the `n`-th request of a line; the last reply stays. -/
def nth (otherwise : Reply) (n : Nat) : List Reply → Reply
  | [] => otherwise
  | r :: rest => ((r :: rest)[n]?).getD ((r :: rest).getLast (by simp))

/-- What the peer replies now. -/
def replyTo (p : Peer) (r : Request) : Reply :=
  nth p.otherwise (p.log.countP fun q => q.line == r.line) ((p.script.get? r.line).getD [])

/-- **A reply**, and the peer after it. -/
def reply : Exchanges.Replier Peer := fun r p =>
  if p.reachable then (p.replyTo r, { p with log := p.log ++ [r] }) else (.dropped, p)

end Peer

end RegistryFleet.Web
