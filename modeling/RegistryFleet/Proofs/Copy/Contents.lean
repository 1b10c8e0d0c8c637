import RegistryFleet.Cluster.Api
import RegistryFleet.Cluster.Manifests
import RegistryFleet.Proofs.Copy.Survival

/-!
# Proofs/Copy/Contents — places for cluster objects that do not look into the objects

An object goes to where its kind and its metadata say. What else it holds is written down, and
neither a directory of manifests nor a cluster that answers as foretold goes by it: objects that
agree in kind and metadata fare the same.

* `ClusterObject.Alike` — objects of one kind with the same metadata.
* `ObjectStore.Blind` — a store whose results, and whose state as far as a view shows it, do not
  depend on what the objects hold.
* `ManifestDirectory.blind_store`, `ClusterApi.blind_store` — both stores are blind.
-/

namespace RegistryFleet

/-- **Outcomes match**: both are the same failure, or both are values, which are related. -/
def Matching {ε α β : Type} (R : α → β → Prop) (x : Except ε α) (y : Except ε β) : Prop :=
  (∃ e, x = .error e ∧ y = .error e) ∨ ∃ a b, x = .ok a ∧ y = .ok b ∧ R a b

theorem Matching.bind {ε α β γ δ : Type} {R : α → β → Prop} {S : γ → δ → Prop} {x : Except ε α}
    {y : Except ε β} {f : α → Except ε γ} {g : β → Except ε δ} (h : Matching R x y)
    (hfg : ∀ a b, R a b → Matching S (f a) (g b)) : Matching S (x >>= f) (y >>= g) := by
  rcases h with ⟨e, rfl, rfl⟩ | ⟨a, b, rfl, rfl, hab⟩
  · exact .inl ⟨e, rfl, rfl⟩
  · exact hfg a b hab

theorem Matching.of_map_eq {ε α β : Type} {f : α → β} : ∀ {x y : Except ε α},
    x.map f = y.map f → Matching (fun a b => f a = f b) x y
  | .error e, .error _, h => .inl ⟨e, rfl, by rw [Except.error.inj h]⟩
  | .ok a, .ok b, h => .inr ⟨a, b, rfl, rfl, Except.ok.inj h⟩

/-- Steps that a view shows as equal have one result. -/
theorem step_of_view {α σ τ : Type} {view : σ → τ} : ∀ {x y : α × σ},
    Prod.map id view x = Prod.map id view y →
      ∃ a s s', x = (a, s) ∧ y = (a, s') ∧ view s = view s'
  | (a, s), (b, s'), h => by
      obtain ⟨rfl, hview⟩ : a = b ∧ view s = view s' := Prod.mk.inj h
      exact ⟨a, s, s', rfl, rfl, hview⟩

/-! ## Files without contents -/

/-- The entry as an empty file, if it is one. -/
def Entry.withoutContent : Entry → Entry
  | directory => directory
  | file _ => file ""

namespace Files

/-- The tree with all its files emptied. -/
def withoutContents (fs : Files) : Files := ⟨fs.entries.map Entry.withoutContent⟩

theorem at?_withoutContents (fs : Files) (names : List String) :
    fs.withoutContents.at? names = (fs.at? names).map Entry.withoutContent := by
  cases names with
  | nil => rfl
  | cons name rest => exact fs.entries.get?_map _ _

theorem descend_withoutContents (fs : Files) : ∀ names here : List String,
    fs.withoutContents.descend here names = fs.descend here names
  | [], _ => rfl
  | name :: rest, here => by
      have ih := descend_withoutContents fs rest
      rw [descend, descend, at?_withoutContents]
      cases fs.at? here with
      | none => rfl
      | some entry => cases entry <;> simp only [Option.map_some, Entry.withoutContent, ih]

/-- A path leads to the same place. -/
theorem locate_withoutContents (fs : Files) (path : String) :
    fs.withoutContents.locate path
      = (fs.locate path).map fun place => (place.1, place.2.map Entry.withoutContent) := by
  unfold locate
  simp only [descend_withoutContents, at?_withoutContents]
  by_cases hnul : path.toList.contains '\x00' = true
  · simp only [hnul, if_true]
    rfl
  by_cases hempty : path.isEmpty = true
  · simp only [hnul, hempty, if_true]
    rfl
  by_cases hlong : path.utf8ByteSize > longestPath
  · simp only [hnul, hempty, hlong, if_true]
    rfl
  simp only [hnul, hempty, hlong, Bool.false_eq_true, if_false]
  cases fs.descend [] (namesOf path) with
  | error e => rfl
  | ok names =>
    simp only [Bind.bind, Except.bind]
    cases fs.at? names with
    | none => cases endsAsDirectory path <;> rfl
    | some entry => cases entry <;> cases endsAsDirectory path <;> rfl

theorem put_withoutContents (fs : Files) (names : List String) (content : String) :
    (fs.put names (.file content)).withoutContents
      = fs.withoutContents.put names (.file "") :=
  congrArg Files.mk (fs.entries.map_insert Entry.withoutContent (key names) (.file content))

/-- A file is written at the same places, whatever files hold. -/
theorem write_withoutContents (fs : Files) (path content : String) :
    (fs.write path content).map withoutContents = fs.withoutContents.write path "" := by
  rw [write, write, locate_withoutContents]
  cases fs.locate path with
  | error e => rfl
  | ok place =>
    obtain ⟨names, entry⟩ := place
    have hput : Except.ok (fs.put names (.file content)).withoutContents
        = (.ok (fs.withoutContents.put names (.file "")) : Except FileError Files) :=
      congrArg Except.ok (put_withoutContents fs names content)
    cases entry with
    | none =>
      by_cases hends : endsAsDirectory path = true
      · simp only [Except.map, Option.map_none, Bind.bind, Except.bind, hends, if_true]
        rfl
      · simp only [Except.map, Option.map_none, Bind.bind, Except.bind, hends]
        exact hput
    | some entry =>
      cases entry with
      | directory => rfl
      | file c => exact hput

/-- A file is removed from the same places, whatever files hold. -/
theorem remove_withoutContents (fs : Files) (path : String) :
    (fs.remove path).map withoutContents = fs.withoutContents.remove path := by
  rw [remove, remove, locate_withoutContents]
  cases fs.locate path with
  | error e => rfl
  | ok place =>
    obtain ⟨names, entry⟩ := place
    cases entry with
    | none => rfl
    | some entry =>
      cases entry with
      | directory => rfl
      | file c =>
        exact congrArg (fun entries => Except.ok (Files.mk entries))
          (fs.entries.map_erase Entry.withoutContent (key names))

end Files

/-! ## Objects without contents -/

/-- **Objects of one kind with the same metadata.** -/
inductive ClusterObject.Alike : ClusterObject → ClusterObject → Prop
  | configMap {a b : ConfigMap} (h : a.metadata = b.metadata) : Alike (.configMap a) (.configMap b)
  | cronJob {a b : CronJob} (h : a.metadata = b.metadata) : Alike (.cronJob a) (.cronJob b)
  | secret {a b : Secret} (h : a.metadata = b.metadata) : Alike (.secret a) (.secret b)

namespace ClusterObject.Alike

variable {o o' : ClusterObject}

theorem refl : ∀ o : ClusterObject, Alike o o
  | .configMap _ => configMap rfl
  | .cronJob _ => cronJob rfl
  | .secret _ => secret rfl

theorem kind (h : Alike o o') : o.kind = o'.kind := by
  cases h <;> rfl

theorem metadata (h : Alike o o') : o.metadata = o'.metadata := by
  cases h <;> assumption

theorem name (h : Alike o o') : o.name = o'.name := by
  rw [ClusterObject.name, ClusterObject.name, h.metadata]

theorem text (h : Alike o o') : o.text = o'.text := by
  rw [ClusterObject.text, ClusterObject.text, h.kind, h.name]

theorem requireName (h : Alike o o') : o.requireName = o'.requireName := by
  rw [ClusterObject.requireName, ClusterObject.requireName, h.kind, h.name]

theorem objectLike (h : Alike o o') : Form.objectLike o = Form.objectLike o' := by
  cases h <;> rfl

theorem target (h : Alike o o') (api : ClusterApi) (name : String) :
    api.target o name = api.target o' name := by
  have hspace : o.namespace? = o'.namespace? := congrArg Metadata.namespaceName h.metadata
  rw [ClusterApi.target, ClusterApi.target, hspace]
  cases h <;> rfl

end ClusterObject.Alike

/-! ## Stores that overlook contents -/

namespace ObjectStore

variable {σ τ : Type}

/-- **An act overlooks what objects hold**: on alike objects, in states that the view shows as
equal, its results are equal, and so are the states after it to the view. -/
def Overlooks (view : σ → τ) (act : ClusterObject → σ → Except Failure Unit × σ) : Prop :=
  ∀ ⦃o o' : ClusterObject⦄ ⦃s s' : σ⦄, o.Alike o' → view s = view s' →
    Prod.map id view (act o s) = Prod.map id view (act o' s')

/-- **A store that is blind** to what its objects hold. -/
structure Blind (store : ObjectStore σ) (view : σ → τ) : Prop where
  write : Overlooks view store.write
  remove : Overlooks view store.remove

/-- One object after the other. -/
theorem Overlooks.each {view : σ → τ} {act : ClusterObject → σ → Except Failure Unit × σ}
    (h : Overlooks view act) {os os' : List ClusterObject}
    (hos : List.Forall₂ ClusterObject.Alike os os') : ∀ {s s' : σ}, view s = view s' →
      Prod.map id view (each act os s) = Prod.map id view (each act os' s') := by
  induction hos with
  | nil => exact fun hs => Prod.ext rfl hs
  | @cons o o' rest rest' ho _ ih =>
    intro s s' hs
    obtain ⟨result, t, t', hact, hact', hview⟩ := step_of_view (h ho hs)
    rw [ObjectStore.each, ObjectStore.each, hact, hact']
    cases result with
    | ok _ => exact ih hview
    | error e => exact Prod.ext rfl hview

end ObjectStore

namespace ManifestDirectory

variable {d : ManifestDirectory} {o o' : ClusterObject} {files files' : Files}

theorem pathOf_alike (d : ManifestDirectory) (h : o.Alike o') : d.pathOf o = d.pathOf o' := by
  rw [pathOf, pathOf, h.requireName]
  unfold fileName
  rw [h.kind]

theorem write_of_nameless {e : Failure} (h : d.pathOf o = .error e) :
    d.write o files = .error e := by
  rw [write, h]
  rfl

theorem remove_of_nameless {e : Failure} (h : d.pathOf o = .error e) :
    d.remove o files = .error e := by
  rw [remove, h]
  rfl

theorem write_alike (d : ManifestDirectory) (ho : o.Alike o')
    (hfiles : files.withoutContents = files'.withoutContents) :
    (d.write o files).map Files.withoutContents
      = (d.write o' files').map Files.withoutContents := by
  cases hpath : d.pathOf o with
  | error e =>
    rw [write_of_nameless hpath, write_of_nameless ((d.pathOf_alike ho).symm.trans hpath)]
  | ok path =>
    have hpath' : d.pathOf o' = .ok path := (d.pathOf_alike ho).symm.trans hpath
    have hwrite := files.write_withoutContents path (Yaml.document o.data)
    rw [hfiles, ← files'.write_withoutContents path (Yaml.document o'.data)] at hwrite
    rw [write_eq hpath, write_eq hpath']
    rcases Matching.of_map_eq hwrite with ⟨e, he, he'⟩ | ⟨written, written', hok, hok', hsame⟩
    · rw [he, he']
    · rw [hok, hok']
      exact congrArg Except.ok hsame

theorem remove_alike (d : ManifestDirectory) (ho : o.Alike o')
    (hfiles : files.withoutContents = files'.withoutContents) :
    (d.remove o files).map Files.withoutContents
      = (d.remove o' files').map Files.withoutContents := by
  cases hpath : d.pathOf o with
  | error e =>
    rw [remove_of_nameless hpath, remove_of_nameless ((d.pathOf_alike ho).symm.trans hpath)]
  | ok path =>
    have hpath' : d.pathOf o' = .ok path := (d.pathOf_alike ho).symm.trans hpath
    have hremove := files.remove_withoutContents path
    rw [hfiles, ← files'.remove_withoutContents path] at hremove
    rw [remove_eq hpath, remove_eq hpath']
    rcases Matching.of_map_eq hremove with ⟨e, he, he'⟩ | ⟨left, left', hok, hok', hsame⟩
    · rw [he, he']
      -- to remove what is not there changes nothing
      cases e with
      | absent => exact congrArg Except.ok hfiles
      | _ => rfl
    · rw [hok, hok']
      exact congrArg Except.ok hsame

theorem commit_alike {act act' : Files → Except Failure Files}
    (hact : (act files).map Files.withoutContents = (act' files').map Files.withoutContents)
    (hfiles : files.withoutContents = files'.withoutContents) :
    Prod.map id Files.withoutContents (commit act files)
      = Prod.map id Files.withoutContents (commit act' files') := by
  unfold commit
  rcases Matching.of_map_eq hact with ⟨e, he, he'⟩ | ⟨changed, changed', hok, hok', hsame⟩
  · rw [he, he']
    exact Prod.ext rfl hfiles
  · rw [hok, hok']
    exact Prod.ext rfl hsame

/-- **A directory of manifests is blind.** -/
theorem blind_store (d : ManifestDirectory) : d.store.Blind Files.withoutContents where
  write _ _ _ _ ho hfiles := commit_alike (d.write_alike ho hfiles) hfiles
  remove _ _ _ _ ho hfiles := commit_alike (d.remove_alike ho hfiles) hfiles

end ManifestDirectory

namespace ClusterApi

variable {o o' : ClusterObject} {cluster cluster' : ScriptedCluster}

/-- An exchange goes by whether there is a request at all, and by what the cluster answers. -/
theorem exchange_alike (ho : o.Alike o') {request request' : Option ClusterRequest}
    (hrequest : request.isSome = request'.isSome) {accepts accepts' : ClusterResponse → Bool}
    (haccepts : accepts = accepts') (hcluster : cluster.responses = cluster'.responses) :
    Prod.map id ScriptedCluster.responses (exchange o request accepts cluster)
      = Prod.map id ScriptedCluster.responses (exchange o' request' accepts' cluster') := by
  obtain ⟨responses, log⟩ := cluster
  obtain ⟨responses', log'⟩ := cluster'
  obtain rfl : responses = responses' := hcluster
  subst haccepts
  unfold exchange
  rw [ho.text]
  cases request with
  | none =>
    cases request' with
    | none => rfl
    | some _ => cases hrequest
  | some request =>
    cases request' with
    | none => cases hrequest
    | some request' => cases responses <;> rfl

theorem withName_alike (ho : o.Alike o')
    {act act' : String → ScriptedCluster → Except Failure Unit × ScriptedCluster}
    (hact : ∀ name, Prod.map id ScriptedCluster.responses (act name cluster)
      = Prod.map id ScriptedCluster.responses (act' name cluster'))
    (hcluster : cluster.responses = cluster'.responses) :
    Prod.map id ScriptedCluster.responses (withName o act cluster)
      = Prod.map id ScriptedCluster.responses (withName o' act' cluster') := by
  unfold withName
  rw [← ho.requireName]
  cases o.requireName with
  | ok name => exact hact name
  | error e => exact Prod.ext rfl hcluster

theorem isSome_applyRequest? (api : ClusterApi) (o : ClusterObject) (name : String) :
    (api.applyRequest? o name).isSome
      = (split? (api.target o name) ("&force=true&fieldManager=" ++ manager)).isSome := by
  unfold applyRequest?
  cases split? (api.target o name) _ <;> rfl

/-- **A cluster that answers as foretold is blind.** -/
theorem blind_store (api : ClusterApi) : api.store.Blind ScriptedCluster.responses where
  write _ _ _ _ ho hcluster := by
    refine withName_alike ho (fun name => exchange_alike ho ?_ ?_ hcluster) hcluster
    · rw [isSome_applyRequest?, isSome_applyRequest?, ho.target]
    · unfold wrote
      rw [ho.objectLike]
  remove _ _ _ _ ho hcluster := by
    refine withName_alike ho (fun name => exchange_alike ho ?_ ?_ hcluster) hcluster
    · rw [deleteRequest?, deleteRequest?, ho.target]
    · unfold removed
      rw [ho.objectLike]

end ClusterApi

end RegistryFleet
