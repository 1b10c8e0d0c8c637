import RegistryFleet.Backend.Memory
import RegistryFleet.Copy.Sync
import RegistryFleet.Credential.Directory
import RegistryFleet.Reconcile.Run
import RegistryFleet.Vendor.Adapter
import RegistryFleet.Web.Peer

/-!
# Reconcile/World — what a run works on

A fleet has backends in memory and backends behind connections, which all speak to one peer, and a
tree of files in which credentials are kept.
-/

namespace RegistryFleet

open Web (Connection Peer)

/-- **A backend of a fleet.** -/
inductive Backend
  | memory (m : Memory)
  | remote (c : Connection)

namespace Backend

/-- What is known of the backend without calling it. -/
def profile : Backend → Profile
  | memory m => m.profile
  | remote c => c.profile

/-- How long every call takes, in milliseconds. -/
def latency : Backend → Nat
  | memory m => m.latency
  | remote _ => 0

/-- The answer to a call, and the backend and the peer after it. -/
def serve (b : Backend) (call : Call) (peer : Peer) : call.Answer × Backend × Peer :=
  match b with
  | memory m =>
    let (answer, m) := Memory.serve call m
    (answer, memory m, peer)
  | remote c =>
    let (answer, peer) := c.serve Peer.reply call peer
    (answer, remote c, peer)

end Backend

/-- **Backends, peer and files.** -/
structure World where
  backends : List Backend
  peer : Peer
  files : Files

namespace World

/-- The failure of a call to a backend that is not there. -/
def noBackend : Error := .configuration "no such backend"

/-- The answer of a backend by its number. -/
def serve (i : Nat) : Calls.Server World := fun call w =>
  match w.backends[i]? with
  | some b =>
    let (answer, b, peer) := b.serve call w.peer
    (answer, { w with backends := w.backends.set i b, peer := peer })
  | none => (.error noBackend, w)

/-- Carries out an effect. -/
def settle (directory : Option CredentialDirectory) (e : Effect) (w : World) :
    Except Error Unit × World :=
  match e.settle directory w.files with
  | .ok files => (.ok (), { w with files := files })
  | .error err => (.error err, w)

/-- What units work on in this world, with a place for credentials or without one. -/
def machine (w : World) (directory : Option CredentialDirectory) : Machine World where
  serve := serve
  latency i := (w.backends[i]?).elim 0 Backend.latency
  settle := settle directory

/-- Every backend as part of the world. -/
def served (w : World) : List (Served World) :=
  (numbered w.backends).map fun (i, b) => ⟨b.profile.registry, serve i⟩

/-- The fleet of all backends. -/
def fleet (w : World) (directory : Option CredentialDirectory) : Fleet World :=
  ⟨w.backends.map Backend.profile, w.machine directory⟩

/-- **A run over all backends**, which stays cancelled once it is (`Signals`). -/
def reconcile (w : World) (directory : Option CredentialDirectory) (settings : RunSettings)
    (cancel : Option Nat) (projects : List ProjectSpec) : Report × World :=
  (w.fleet directory).reconcile settings cancel projects w

end World

end RegistryFleet
