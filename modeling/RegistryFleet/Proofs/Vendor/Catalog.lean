import RegistryFleet.Proofs.Keyed
import RegistryFleet.Proofs.Text.ByteOrder
import RegistryFleet.Proofs.Topology.Trigger
import RegistryFleet.Proofs.Vendor.Listing
import RegistryFleet.Proofs.Vendor.Membership

/-!
# Proofs/Vendor/Catalog — the projects of a flat catalog divide it

A registry with a flat catalog has nothing but names. Its projects are read off them as a set of
first path segments, the repositories of a project by a filter on the names; the two readings are
made apart, of two requests. They agree because both go by the first segment of a name, which every
name has once (`Repository.heads_iff`): so each name belongs to the one project of its segment.

* `Repository.Heads` — the first path segment of a name.
* `Acr.Divides` — projects and repositories that divide a catalog.
* `Connection.catalogs_of_answered` — every list of names is the catalog that some peer tells.
* `Connection.catalog_divided` — what the two calls answer divides the catalog.
-/

namespace RegistryFleet

open Json (Typed)
open Web (Connection Exchanges Peer)

/-! ## First segments -/

namespace Repository

/-- **The first path segment of a name** — it has no slash, and is the whole name or stands in front
of a slash. -/
def Heads (segment name : String) : Prop :=
  '/' ∉ segment.toList ∧ (name = segment ∨ ∃ rest, name = segment ++ "/" ++ rest)

theorem slash_not_mem_firstSegment (name : String) : '/' ∉ (firstSegment name).toList := fun h => by
  rw [firstSegment, String.toList_ofList] at h
  simpa using List.mem_takeWhile_imp h

/-- **Every name has one first segment.** -/
theorem heads_iff {segment name : String} : Heads segment name ↔ firstSegment name = segment := by
  constructor
  · rintro ⟨hsegment, hname⟩
    exact (Text.before_text_eq_iff rfl hsegment).2 hname
  · rintro rfl
    have hsegment := slash_not_mem_firstSegment name
    exact ⟨hsegment, (Text.before_text_eq_iff rfl hsegment).1 rfl⟩

theorem heads_firstSegment (name : String) : Heads (firstSegment name) name := heads_iff.2 rfl

/-! ## Projects -/

variable {names names' : List String} {p : Project}

/-- The first segments that are not empty. -/
def segments (names : List String) : List String := (names.map firstSegment).filter (· != "")

theorem mem_segments {segment : String} :
    segment ∈ segments names ↔ segment ≠ "" ∧ ∃ name ∈ names, Heads segment name := by
  simp only [segments, List.mem_filter, List.mem_map, bne_iff_ne, heads_iff, and_comm]

/-- The keys of the map that the projects are read off. -/
theorem projectsOf_eq (names : List String) :
    projectsOf names
      = (Keyed.ofList ((segments names).map fun s => (s, ()))).keys.map Project.named := rfl

theorem mem_projectsOf :
    p ∈ projectsOf names
      ↔ p = .named p.name ∧ p.name ≠ "" ∧ ∃ name ∈ names, Heads p.name name := by
  rw [projectsOf_eq, List.mem_map, ← mem_segments]
  simp only [Keyed.mem_keys_ofList, List.map_map, Function.comp_def, List.map_id']
  constructor
  · rintro ⟨segment, hsegment, rfl⟩
    exact ⟨rfl, hsegment⟩
  · rintro ⟨hp, hsegment⟩
    exact ⟨p.name, hsegment, hp.symm⟩

/-- **The projects are listed in strictly increasing order.** -/
theorem pairwise_projectsOf (names : List String) :
    (projectsOf names).Pairwise fun a b => a.name < b.name := by
  rw [projectsOf_eq, List.pairwise_map]
  exact Keyed.pairwise_keys _

/-- **Only which names there are counts**, not in which order nor how often. -/
theorem projectsOf_congr (h : ∀ name, name ∈ names ↔ name ∈ names') :
    projectsOf names = projectsOf names' := by
  have hsorted := pairwise_projectsOf
  have hmem : ∀ p, p ∈ projectsOf names ↔ p ∈ projectsOf names' := fun p => by
    simp only [mem_projectsOf, h]
  have hnodup : ∀ names, (projectsOf names).Nodup := fun names => by
    refine List.Pairwise.imp (fun {a b} hlt he => ?_) (hsorted names)
    exact String.lt_irrefl b.name (by rwa [he] at hlt)
  refine ((List.perm_ext_iff_of_nodup (hnodup _) (hnodup _)).2 hmem).eq_of_pairwise ?_
    (hsorted names) (hsorted names')
  exact fun a b _ _ hab hba => absurd (String.lt_trans hab hba) (String.lt_irrefl _)

end Repository

/-! ## Repositories -/

namespace Acr

open Repository (Heads firstSegment projectsOf)

variable {project entry segment : String} {names : List String}

/-- The names of a project's repositories are those that its name heads, as often as they occur. -/
theorem names_repositoriesOf :
    (repositoriesOf project names).map Repository.name
      = names.filter fun name => firstSegment name == project := by
  rw [repositoriesOf, List.map_map]
  exact List.map_id' _

/-- **How often a name is listed** as a repository of a project. -/
theorem count_repositoriesOf (h : Heads segment entry) :
    ((repositoriesOf project names).map Repository.name).count entry
      = if project = segment then names.count entry else 0 := by
  rw [names_repositoriesOf]
  have hsegment : firstSegment entry = segment := Repository.heads_iff.1 h
  by_cases he : project = segment
  · rw [if_pos he, List.count_filter]
    simp [hsegment, he]
  · rw [if_neg he, List.count_eq_zero]
    intro hmem
    have := (List.mem_filter.1 hmem).2
    exact he ((beq_iff_eq.1 this).symm.trans hsegment)

/-- A project has repositories where a name begins with its name. -/
theorem repositoriesOf_ne_nil : repositoriesOf project names ≠ []
    ↔ ∃ name ∈ names, Heads project name := by
  rw [repositoriesOf, ne_eq, List.map_eq_nil_iff, List.filter_eq_nil_iff]
  simp [Repository.heads_iff]

/-- **Projects and repositories that divide a catalog**: the projects are the first segments that
are not empty, in increasing order of their octets; those and no others have repositories; and a
name is listed for the one project of its segment, as often as the catalog has it. -/
structure Divides (names : List String) (projects : List Project)
    (repositories : Project → List Repository) : Prop where
  increasing : projects.Pairwise fun a b => Text.octets a.name < Text.octets b.name
  mem_iff : ∀ p, p ∈ projects
    ↔ p = .named p.name ∧ p.name ≠ "" ∧ ∃ entry ∈ names, Heads p.name entry
  listed_iff : ∀ p : Project, p.name ≠ "" → (.named p.name ∈ projects ↔ repositories p ≠ [])
  owned : ∀ p, ∀ r ∈ repositories p, r.project = p.name
  once : ∀ entry ∈ names, ∀ segment, Heads segment entry → segment ≠ "" →
    ∃ p ∈ projects, ∀ q ∈ projects, ((repositories q).map Repository.name).count entry
      = if q = p then names.count entry else 0
  nowhere : ∀ entry, entry ∉ names ∨ Heads "" entry →
    ∀ p ∈ projects, entry ∉ (repositories p).map Repository.name

theorem divides (names : List String) :
    Divides names (projectsOf names) fun p => repositoriesOf p.name names where
  increasing := (Repository.pairwise_projectsOf names).imp Text.lt_iff_octets.1
  mem_iff _ := Repository.mem_projectsOf
  listed_iff p hname := by
    rw [repositoriesOf_ne_nil, Repository.mem_projectsOf]
    exact ⟨fun h => h.2.2, fun h => ⟨rfl, hname, h⟩⟩
  owned p r hr := by
    obtain ⟨name, -, rfl⟩ := List.mem_map.1 hr
    rfl
  once entry hentry segment hsegment hne := by
    refine ⟨.named segment, Repository.mem_projectsOf.2 ⟨rfl, hne, entry, hentry, hsegment⟩,
      fun q hq => ?_⟩
    rw [count_repositoriesOf hsegment]
    refine if_congr ⟨fun he => ?_, fun he => by rw [he]; rfl⟩ rfl rfl
    rw [(Repository.mem_projectsOf.1 hq).1, he]
  nowhere entry hentry p hp := by
    rw [← List.count_eq_zero, count_repositoriesOf (Repository.heads_firstSegment entry)]
    rcases hentry with hentry | hentry
    · rw [List.count_eq_zero.2 hentry, ite_self]
    · rw [Repository.heads_iff.1 hentry, if_neg (Repository.mem_projectsOf.1 hp).2.1]

end Acr

/-! ## Catalogs that are told -/

namespace Acr

/-- A catalog, as it is told. -/
def catalogData (names : List String) : Data := .record [("repositories", .texts names)]

/-- **Every list of names can be told.** -/
theorem document_catalogData (names : List String) :
    Connection.document readCatalog [] (Json.compact (catalogData names)) = names := by
  have hnumberless : (catalogData names).Numberless := ⟨Data.numberless_texts names, trivial⟩
  have hnames : Typed.list .text (Data.texts names).node = .ok names := by
    rw [Data.node_texts]
    exact Typed.items_text_map names
  have hread : readCatalog (catalogData names).node = .ok names := by
    rw [catalogData, Data.node, Data.fieldNodes, Data.fieldNodes, readCatalog, Typed.record]
    simp only [Typed.fields, Typed.once, hnames]
    rfl
  refine Connection.document_of_ok ?_
  rw [Typed.read, Json.ofText_compact hnumberless]
  simp only [hread]
  rfl

end Acr

namespace Web.Connection

variable {σ : Type} {c : Connection} {replier : Exchanges.Replier σ} {s : σ} {names : List String}

/-- **The catalog that is told** in a state of the peer. -/
def Catalogs (c : Connection) (replier : Exchanges.Replier σ) (s : σ) (names : List String) :
    Prop :=
  ((Acr.catalog c).run replier s).1 = .ok names

/-- **A catalog is told** by a peer that answers with it. -/
theorem catalogs_of_answered (hc : c.Open)
    (h : ∀ request,
      (replier request s).1 = .answered 200 (Json.compact (Acr.catalogData names))) :
    c.Catalogs replier s names := by
  obtain ⟨request, hrequest⟩ : ∃ request, c.request? .get Acr.catalogPath [] none = some request :=
    Option.isSome_iff_exists.1 (isSome_request?_iff.2 hc.address)
  have hcounts : Counts (· = Json.compact (Acr.catalogData names)) (replier request s).1 := by
    rw [h]
    exact ⟨Nat.le_refl _, by decide, withoutMark_compact_record _⟩
  rw [Catalogs, Acr.catalog, getDocument, Exchanges.run_map, run_send _ hrequest hcounts]
  exact congrArg Except.ok (Acr.document_catalogData names)

/-! ## The two calls -/

/-- **The projects and the repositories that are listed divide the catalog** — whatever names it
has, and whichever states it is told in. The projects are the same for every catalog of the same
names, in whatever order and however often they occur. -/
theorem catalog_divided (hvendor : c.registry.vendor = .acr) (names : List String) :
    ∃ projects repositories, Acr.Divides names projects repositories
      ∧ (∀ (replier : Exchanges.Replier σ) (s : σ) (names' : List String),
        c.Catalogs replier s names' → (∀ entry, entry ∈ names' ↔ entry ∈ names) →
          (c.serve replier .listProjects s).1 = .ok projects)
      ∧ ∀ (replier : Exchanges.Replier σ) (s : σ), c.Catalogs replier s names →
        ∀ p, (c.serve replier (.listRepositories p) s).1 = .ok (repositories p) := by
  refine ⟨_, _, Acr.divides names, fun replier s names' htold hsame => ?_,
    fun replier s htold p => ?_⟩
  · rw [← Repository.projectsOf_congr hsame, serve, exchanges]
    simp only [hvendor]
    rw [Acr.projects, Exchanges.run_map, htold]
    rfl
  · rw [serve, exchanges]
    simp only [hvendor]
    rw [Acr.repositories, Exchanges.run_map, htold]
    rfl

/-- A connection to a registry with a flat catalog. -/
def flatHub : Connection where
  registry := ⟨"flat", "https://flat.example.com", ⟨"admin", "pw"⟩, .acr, .leaf, ⟨false, none⟩,
    .empty⟩
  base := ⟨"https", "", some "flat.example.com", none, .segments [""], none, none⟩
  userAgent := ClientSettings.standard.userAgent
  pageSize := ClientSettings.standard.pageSize
  pageLimit := pagesCountable

theorem open_flatHub : flatHub.Open := ⟨⟨⟨_, rfl⟩, rfl⟩, Web.Connection.pagesCountable_pos⟩

/-- A peer that answers every request with a catalog. -/
def telling (names : List String) : Peer :=
  .scripted .empty (.answered 200 (Json.compact (Acr.catalogData names)))

theorem catalog_divided_flatHub :
    ∃ projects repositories,
      Acr.Divides ["team/web", "alone", "/odd", "", "team/web"] projects repositories
      ∧ (flatHub.serve Peer.reply .listProjects (telling ["", "/odd", "alone", "team/web"])).1
        = .ok projects
      ∧ ∀ p, (flatHub.serve Peer.reply (.listRepositories p)
          (telling ["team/web", "alone", "/odd", "", "team/web"])).1 = .ok (repositories p) := by
  have htold : ∀ names, flatHub.Catalogs Peer.reply (telling names) names := fun names =>
    catalogs_of_answered open_flatHub fun _ => rfl
  obtain ⟨projects, repositories, hdivides, hprojects, hrepositories⟩ :=
    catalog_divided (c := flatHub) rfl ["team/web", "alone", "/odd", "", "team/web"]
  refine ⟨projects, repositories, hdivides, ?_, hrepositories _ _ (htold _)⟩
  refine hprojects _ _ _ (htold _) fun entry => ?_
  simp only [List.mem_cons]
  tauto

end Web.Connection

end RegistryFleet
