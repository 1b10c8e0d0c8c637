import RegistryFleet.Cluster.Object
import RegistryFleet.Reconcile.Failure

/-!
# Cluster/Store — where cluster objects are kept

Objects are written and removed as a whole, by kind and name. Removing an object that is not there
succeeds.
-/

namespace RegistryFleet

/-- **A place for cluster objects** with a state. -/
structure ObjectStore (σ : Type) where
  write : ClusterObject → σ → Except Failure Unit × σ
  remove : ClusterObject → σ → Except Failure Unit × σ

namespace ObjectStore

variable {σ : Type}

/-- Carries out `act` on one object after the other, until one fails. -/
def each (act : ClusterObject → σ → Except Failure Unit × σ) : List ClusterObject → σ →
    Except Failure Unit × σ
  | [], s => (.ok (), s)
  | o :: rest, s =>
    match act o s with
    | (.ok (), s) => each act rest s
    | (.error e, s) => (.error e, s)

/-- Writes objects in order, until one cannot be written. -/
def writeAll (store : ObjectStore σ) : List ClusterObject → σ → Except Failure Unit × σ :=
  each store.write

/-- Removes objects in order, until one cannot be removed. -/
def removeAll (store : ObjectStore σ) : List ClusterObject → σ → Except Failure Unit × σ :=
  each store.remove

end ObjectStore

/-- The name of an object that is to be kept, which must have one. -/
def ClusterObject.requireName (o : ClusterObject) : Except Failure String :=
  if o.name = "" then .error (.invalid (o.kind ++ " without a name cannot be persisted"))
  else .ok o.name

end RegistryFleet
