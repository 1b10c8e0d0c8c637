import RegistryFleet.Copy.Job
import RegistryFleet.Topology.Plan
import Mathlib.Data.List.Nodup

/-!
# Proofs/Topology/Plan — the plan of a fleet is exact

Each end of an edge decides by itself whether it replicates. The two decisions fit together: of a
hub and a leaf exactly one end has the rule if the hub can push or the leaf can pull, and no other
edge has one.

* `replication_of_hub`, `replication_of_leaf` — what the two ends of such an edge decide.
* `edgeRules` — the rules of an edge between a hub and a leaf, at most one.
* `planFleet_exact` — a fleet with at most one hub has the rules of all its edges, each once.
-/

namespace RegistryFleet

variable {settings : TopologySettings} {registries : List Registry} {projects : List ProjectSpec}
  {project : ProjectSpec} {here there hub leaf : Registry} {rule : Rule} {rules : List Rule}

/-! ## The two ends of an edge -/

/-- A hub pushes to a leaf if it can. -/
theorem replication_of_hub {hub leaf : Node} (hhub : hub.hub = true) (hleaf : leaf.hub = false) :
    replication hub leaf = .ok (if hub.capabilities.push then some .push else none) := by
  simp only [replication, hhub, hleaf]
  cases hub.capabilities.push <;> rfl

/-- A leaf pulls from a hub that cannot push, if it can. -/
theorem replication_of_leaf {hub leaf : Node} (hhub : hub.hub = true) (hleaf : leaf.hub = false) :
    replication leaf hub = .ok (if !hub.capabilities.push && leaf.capabilities.pull then some .pull
      else none) := by
  simp only [replication, hhub, hleaf]
  cases hub.capabilities.push <;> cases leaf.capabilities.pull <;> rfl

/-- Two leaves have nothing to replicate. -/
theorem replication_of_leaves {here there : Node} (hhere : here.hub = false)
    (hthere : there.hub = false) : replication here there = .ok none := by
  simp [replication, hhere, hthere]

/-- The rule for a project that is configured on `here`. -/
def Rule.towards (settings : TopologySettings) (project : ProjectSpec) (direction : Direction)
    (here there : Registry) : Rule where
  project := project.name
  here := here.name
  there := there.name
  direction := direction
  trigger := .resolve settings direction project.trigger
  transport := (Trigger.resolve settings direction project.trigger).transport
    here.options.replication

theorem Rule.plan_eq : Rule.plan settings here there project
    = (replication here.node there.node).map
        (Option.map fun direction => towards settings project direction here there) := by
  unfold plan
  cases replication here.node there.node with
  | error e => rfl
  | ok direction => cases direction <;> rfl

/-- The rule that `here` has towards `there`, where they are not both hubs. -/
def Rule.between? (settings : TopologySettings) (project : ProjectSpec) (here there : Registry) :
    Option Rule :=
  (plan settings here there project).toOption.join

theorem Rule.between?_of_hub (hhub : hub.isHub = true) (hleaf : leaf.isHub = false) :
    between? settings project hub leaf
      = if hub.vendor.capabilities.push then some (towards settings project .push hub leaf)
        else none := by
  have hpush : replication hub.node leaf.node = _ := replication_of_hub hhub hleaf
  rw [between?, plan_eq, hpush]
  change Option.join (some (Option.map _ (ite (hub.vendor.capabilities.push = true) _ _))) = _
  split <;> rfl

theorem Rule.between?_of_leaf (hhub : hub.isHub = true) (hleaf : leaf.isHub = false) :
    between? settings project leaf hub
      = if !hub.vendor.capabilities.push && leaf.vendor.capabilities.pull then
          some (towards settings project .pull leaf hub)
        else none := by
  have hpull : replication leaf.node hub.node = _ := replication_of_leaf hhub hleaf
  rw [between?, plan_eq, hpull]
  change Option.join (some (Option.map _ (ite
    ((!hub.vendor.capabilities.push && leaf.vendor.capabilities.pull) = true) _ _))) = _
  split <;> rfl

theorem Rule.between?_of_leaves (hhere : here.isHub = false) (hthere : there.isHub = false) :
    between? settings project here there = none := by
  have hnone : replication here.node there.node = _ := replication_of_leaves hhere hthere
  rw [between?, plan_eq, hnone]
  rfl

/-- A rule names its project and the registries at its ends. -/
theorem Rule.names_of_between? (h : between? settings project here there = some rule) :
    rule.project = project.name ∧ rule.here = here.name ∧ rule.there = there.name := by
  rw [between?, plan_eq] at h
  cases hr : replication here.node there.node with
  | error e => simp [hr, Except.map, Except.toOption] at h
  | ok o =>
    have hmap : o.map (fun direction => towards settings project direction here there)
        = some rule := by simpa [hr, Except.map, Except.toOption] using h
    obtain ⟨direction, -, rfl⟩ := Option.map_eq_some_iff.1 hmap
    exact ⟨rfl, rfl, rfl⟩

/-- **The rules of an edge** between a hub and a leaf — the hub pushes if it can, else the leaf
pulls if it can. -/
def edgeRules (settings : TopologySettings) (project : ProjectSpec) (hub leaf : Registry) :
    List Rule :=
  if hub.vendor.capabilities.push then [.towards settings project .push hub leaf]
  else if leaf.vendor.capabilities.pull then [.towards settings project .pull leaf hub]
  else []

/-- An edge has one rule at most. -/
theorem edgeRules_cases (settings : TopologySettings) (project : ProjectSpec)
    (hub leaf : Registry) : edgeRules settings project hub leaf = []
      ∨ ∃ rule, edgeRules settings project hub leaf = [rule] := by
  unfold edgeRules
  split
  · exact .inr ⟨_, rfl⟩
  · split
    · exact .inr ⟨_, rfl⟩
    · exact .inl rfl

/-- The rules of an edge are those that either end has. -/
theorem mem_edgeRules (hhub : hub.isHub = true) (hleaf : leaf.isHub = false) :
    rule ∈ edgeRules settings project hub leaf
      ↔ Rule.between? settings project hub leaf = some rule
        ∨ Rule.between? settings project leaf hub = some rule := by
  rw [Rule.between?_of_hub hhub hleaf, Rule.between?_of_leaf hhub hleaf, edgeRules]
  cases hub.vendor.capabilities.push <;> cases leaf.vendor.capabilities.pull <;>
    simp [eq_comm]

/-- Images flow from the hub to the leaf. -/
theorem ends_of_mem_edgeRules (h : rule ∈ edgeRules settings project hub leaf) :
    CopyJob.ends rule rule.here rule.there = (hub.name, leaf.name) := by
  unfold edgeRules at h
  split at h
  · rw [List.mem_singleton.1 h]
    rfl
  · split at h
    · rw [List.mem_singleton.1 h]
      rfl
    · cases h

/-! ## The whole plan -/

/-- Two registries of a fleet with one hub at most are not both hubs. -/
theorem not_both_hubs (hhubs : (hubs registries).length ≤ 1) (hhere : here ∈ registries)
    (hthere : there ∈ registries) (hne : there.name ≠ here.name) :
    ¬ (here.isHub = true ∧ there.isHub = true) := by
  rintro ⟨h, h'⟩
  have hmem : here ∈ hubs registries := List.mem_filter.2 ⟨hhere, h⟩
  have hmem' : there ∈ hubs registries := List.mem_filter.2 ⟨hthere, h'⟩
  refine hne (congrArg Registry.name ?_)
  match hubs registries, hhubs, hmem, hmem' with
  | [r], _, hmem, hmem' => rw [List.mem_singleton.1 hmem, List.mem_singleton.1 hmem']

theorem mapM_ok {α β ε : Type} {f : α → Except ε β} {g : α → β} : ∀ {xs : List α},
    (∀ x ∈ xs, f x = .ok (g x)) → xs.mapM f = .ok (xs.map g)
  | [], _ => rfl
  | x :: xs, h => by
      have ih : xs.mapM f = .ok (xs.map g) := mapM_ok fun y hy => h y (List.mem_cons_of_mem x hy)
      rw [List.mapM_cons, h x List.mem_cons_self, ih]
      rfl

theorem Rule.plan_eq_ok (h : ¬ (here.isHub = true ∧ there.isHub = true)) :
    Rule.plan settings here there project = .ok (between? settings project here there) := by
  have hok : ∃ direction, replication here.node there.node = .ok direction := by
    unfold replication
    split
    · next hboth => exact absurd (Bool.and_eq_true_iff.1 hboth) h
    · repeat' split
      all_goals exact ⟨_, rfl⟩
  obtain ⟨direction, hdirection⟩ := hok
  rw [between?, plan_eq, hdirection]
  rfl

theorem checkHubs_ok (hhubs : (hubs registries).length ≤ 1) : checkHubs registries = .ok () :=
  if_neg (Nat.not_lt.2 hhubs)

/-- **The plan of a fleet with at most one hub**, as nested lists. -/
theorem planFleet_eq (hhubs : (hubs registries).length ≤ 1) :
    planFleet settings registries projects = .ok (registries.flatMap fun here =>
      (projects.filter fun p => p.expectedOn here.name).flatMap fun project =>
        (partners registries here project).filterMap (Rule.between? settings project here)) := by
  have hproject : ∀ here ∈ registries, ∀ project, planProject settings registries here project
      = .ok ((partners registries here project).filterMap
          (Rule.between? settings project here)) := fun here hhere project => by
    have hrules : (partners registries here project).mapM
          (fun there => Rule.plan settings here there project)
        = .ok ((partners registries here project).map (Rule.between? settings project here)) :=
      mapM_ok fun there hthere => by
        obtain ⟨hmem, hpartner⟩ := List.mem_filter.1 hthere
        have hne : there.name ≠ here.name := by simpa using (Bool.and_eq_true_iff.1 hpartner).1
        exact Rule.plan_eq_ok (not_both_hubs hhubs hhere hmem hne)
    rw [planProject, hrules]
    exact congrArg Except.ok (List.filterMap_map.trans rfl)
  have hregistry : ∀ here ∈ registries, planRegistry settings registries projects here
      = .ok ((projects.filter fun p => p.expectedOn here.name).flatMap fun project =>
          (partners registries here project).filterMap (Rule.between? settings project here)) :=
    fun here hhere => by
      rw [planRegistry, checkHubs_ok hhubs, mapM_ok fun project _ => hproject here hhere project]
      exact congrArg Except.ok List.flatMap_def.symm
  rw [planFleet, mapM_ok hregistry]
  exact congrArg Except.ok List.flatMap_def.symm

/-- A fleet with more than one hub has no plan. -/
theorem planFleet_of_hubs (hhubs : 1 < (hubs registries).length) :
    ∃ e, planFleet settings registries projects = .error e := by
  cases registries with
  | nil => cases hhubs
  | cons here rest =>
    have hcheck : ∃ e, checkHubs (here :: rest) = .error e := ⟨_, if_pos hhubs⟩
    obtain ⟨e, he⟩ := hcheck
    refine ⟨e, ?_⟩
    rw [planFleet, List.mapM_cons, planRegistry, he]
    rfl

theorem planFleet_ok_iff : (∃ rules, planFleet settings registries projects = .ok rules)
    ↔ (hubs registries).length ≤ 1 := by
  refine ⟨fun ⟨rules, hrules⟩ => Nat.not_lt.1 fun hhubs => ?_, fun hhubs => ⟨_, planFleet_eq hhubs⟩⟩
  have hnone : ∃ e, planFleet settings registries projects = .error e := planFleet_of_hubs hhubs
  obtain ⟨e, he⟩ := hnone
  rw [hrules] at he
  cases he

/-- **The rules of a plan** are those of all pairs of registries that host a project. -/
theorem mem_planFleet (h : planFleet settings registries projects = .ok rules) :
    rule ∈ rules ↔ ∃ here ∈ registries, ∃ project ∈ projects, ∃ there ∈ registries,
      there.name ≠ here.name ∧ project.expectedOn here.name = true
        ∧ project.expectedOn there.name = true
        ∧ Rule.between? settings project here there = some rule := by
  obtain rfl := Except.ok.inj (h.symm.trans (planFleet_eq (planFleet_ok_iff.1 ⟨rules, h⟩)))
  simp only [List.mem_flatMap, List.mem_filter, List.mem_filterMap, partners, Bool.and_eq_true,
    bne_iff_ne]
  refine ⟨?_, ?_⟩
  · rintro ⟨here, hhere, project, ⟨hproject, hon⟩, there, ⟨hthere, hne, hon'⟩, hrule⟩
    exact ⟨here, hhere, project, hproject, there, hthere, hne, hon, hon', hrule⟩
  · rintro ⟨here, hhere, project, hproject, there, hthere, hne, hon, hon', hrule⟩
    exact ⟨here, hhere, project, ⟨hproject, hon⟩, there, ⟨hthere, hne, hon'⟩, hrule⟩

/-! ## Each rule once -/

/-- **A hub and a leaf of a fleet that host a project.** -/
structure Hosted (registries : List Registry) (project : ProjectSpec) (hub leaf : Registry) :
    Prop where
  hub_mem : hub ∈ registries
  leaf_mem : leaf ∈ registries
  isHub : hub.isHub = true
  isLeaf : leaf.isHub = false
  onHub : project.expectedOn hub.name = true
  onLeaf : project.expectedOn leaf.name = true

/-- Does the rule join the two registries for the project, in either direction? -/
def Rule.joins (project : ProjectSpec) (a b : Registry) (rule : Rule) : Bool :=
  rule.project == project.name
    && ((rule.here == a.name && rule.there == b.name)
      || (rule.here == b.name && rule.there == a.name))

/-- Every rule belongs to the edge of a hub and a leaf. -/
theorem hosted_of_mem_planFleet (h : planFleet settings registries projects = .ok rules)
    (hrule : rule ∈ rules) : ∃ project ∈ projects, ∃ hub leaf,
      Hosted registries project hub leaf ∧ rule ∈ edgeRules settings project hub leaf := by
  obtain ⟨here, hhere, project, hproject, there, hthere, hne, hon, hon', hrule⟩ :=
    (mem_planFleet h).1 hrule
  have hboth := not_both_hubs (planFleet_ok_iff.1 ⟨rules, h⟩) hhere hthere hne
  refine ⟨project, hproject, ?_⟩
  cases hhub : here.isHub with
  | true =>
    have hleaf : there.isHub = false := Bool.eq_false_iff.2 fun hthere => hboth ⟨hhub, hthere⟩
    exact ⟨here, there, ⟨hhere, hthere, hhub, hleaf, hon, hon'⟩,
      (mem_edgeRules hhub hleaf).2 (.inl hrule)⟩
  | false =>
    cases hhub' : there.isHub with
    | true =>
      exact ⟨there, here, ⟨hthere, hhere, hhub', hhub, hon', hon⟩,
        (mem_edgeRules hhub' hhub).2 (.inr hrule)⟩
    | false =>
      rw [Rule.between?_of_leaves hhub hhub'] at hrule
      cases hrule

/-- **No rule stands twice in a plan**, where names are distinct. -/
theorem nodup_planFleet (hregistries : (registries.map Registry.name).Nodup)
    (hprojects : (projects.map ProjectSpec.name).Nodup)
    (h : planFleet settings registries projects = .ok rules) : rules.Nodup := by
  obtain rfl := Except.ok.inj (h.symm.trans (planFleet_eq (planFleet_ok_iff.1 ⟨rules, h⟩)))
  have hnames : registries.Pairwise fun a b => a.name ≠ b.name := List.pairwise_map.1 hregistries
  have hprojectNames : projects.Pairwise fun a b => a.name ≠ b.name := List.pairwise_map.1 hprojects
  have hrule : ∀ (here : Registry) (project : ProjectSpec) (r : Rule),
      r ∈ (partners registries here project).filterMap (Rule.between? settings project here) →
        r.here = here.name ∧ r.project = project.name := fun here project r hr => by
    obtain ⟨there, -, hbetween⟩ := List.mem_filterMap.1 hr
    obtain ⟨hp, hh, -⟩ := Rule.names_of_between? hbetween
    exact ⟨hh, hp⟩
  refine List.nodup_flatMap.2 ⟨fun here _ => List.nodup_flatMap.2 ⟨fun project _ => ?_, ?_⟩, ?_⟩
  · refine List.Pairwise.filterMap _ (fun a b hne r hr r' hr' he => hne ?_)
      (hnames.filter (fun r => r.name != here.name && project.expectedOn r.name))
    rw [← (Rule.names_of_between? hr).2.2, ← (Rule.names_of_between? hr').2.2, he]
  · refine (hprojectNames.filter fun p => p.expectedOn here.name).imp ?_
    intro project project' hne r hr hr'
    exact hne ((hrule here _ r hr).2.symm.trans (hrule here _ r hr').2)
  · refine hnames.imp ?_
    intro here here' hne r hr hr'
    obtain ⟨_, -, hr⟩ := List.mem_flatMap.1 hr
    obtain ⟨_, -, hr'⟩ := List.mem_flatMap.1 hr'
    exact hne ((hrule _ _ r hr).1.symm.trans (hrule _ _ r hr').1)

/-- The rules of a plan that join a hub and a leaf are those of the edge. -/
theorem mem_filter_joins (hregistries : (registries.map Registry.name).Nodup)
    (hprojects : (projects.map ProjectSpec.name).Nodup)
    (h : planFleet settings registries projects = .ok rules) (hproject : project ∈ projects)
    (hhosted : Hosted registries project hub leaf) :
    rule ∈ rules.filter (Rule.joins project hub leaf)
      ↔ rule ∈ edgeRules settings project hub leaf := by
  have hinj : ∀ a ∈ registries, ∀ b ∈ registries, a.name = b.name → a = b :=
    fun a ha b hb => List.inj_on_of_nodup_map hregistries ha hb
  have hne : leaf.name ≠ hub.name := fun he => by
    have hhub := hhosted.isHub
    rw [← hinj _ hhosted.leaf_mem _ hhosted.hub_mem he, hhosted.isLeaf] at hhub
    cases hhub
  rw [List.mem_filter, mem_planFleet h, mem_edgeRules hhosted.isHub hhosted.isLeaf]
  constructor
  · rintro ⟨⟨here, hhere, project', hproject', there, hthere, -, -, -, hrule⟩, hjoins⟩
    obtain ⟨hp, hh, ht⟩ := Rule.names_of_between? hrule
    rw [Rule.joins, hp, hh, ht] at hjoins
    simp only [Bool.and_eq_true, Bool.or_eq_true, beq_iff_eq] at hjoins
    obtain ⟨hname, hends⟩ := hjoins
    obtain rfl := List.inj_on_of_nodup_map hprojects hproject' hproject hname
    rcases hends with ⟨ha, hb⟩ | ⟨ha, hb⟩
    · obtain rfl := hinj _ hhere _ hhosted.hub_mem ha
      obtain rfl := hinj _ hthere _ hhosted.leaf_mem hb
      exact .inl hrule
    · obtain rfl := hinj _ hhere _ hhosted.leaf_mem ha
      obtain rfl := hinj _ hthere _ hhosted.hub_mem hb
      exact .inr hrule
  · rintro (hrule | hrule)
    · obtain ⟨hp, hh, ht⟩ := Rule.names_of_between? hrule
      exact ⟨⟨hub, hhosted.hub_mem, project, hproject, leaf, hhosted.leaf_mem, hne,
        hhosted.onHub, hhosted.onLeaf, hrule⟩, by simp [Rule.joins, hp, hh, ht]⟩
    · obtain ⟨hp, hh, ht⟩ := Rule.names_of_between? hrule
      exact ⟨⟨leaf, hhosted.leaf_mem, project, hproject, hub, hhosted.hub_mem, hne.symm,
        hhosted.onLeaf, hhosted.onHub, hrule⟩, by simp [Rule.joins, hp, hh, ht]⟩

/-- **An edge has its rules in the plan, each once.** -/
theorem filter_joins (hregistries : (registries.map Registry.name).Nodup)
    (hprojects : (projects.map ProjectSpec.name).Nodup)
    (h : planFleet settings registries projects = .ok rules) (hproject : project ∈ projects)
    (hhosted : Hosted registries project hub leaf) :
    rules.filter (Rule.joins project hub leaf) = edgeRules settings project hub leaf := by
  have hnodup := (nodup_planFleet hregistries hprojects h).filter (Rule.joins project hub leaf)
  have hmem : ∀ rule, rule ∈ rules.filter (Rule.joins project hub leaf)
      ↔ rule ∈ edgeRules settings project hub leaf := fun rule =>
    mem_filter_joins hregistries hprojects h hproject hhosted
  -- An edge has one rule at most, so that no order has to be compared.
  rcases edgeRules_cases settings project hub leaf with hnone | ⟨rule, hone⟩
  · rw [hnone] at hmem ⊢
    exact List.eq_nil_iff_forall_not_mem.2 fun rule hrule => nomatch (hmem rule).1 hrule
  · rw [hone] at hmem ⊢
    exact List.perm_singleton.1
      ((List.perm_ext_iff_of_nodup hnodup (List.nodup_singleton rule)).2 hmem)

/-- **The plan of a fleet is exact.** There is none just if two registries claim to be the hub. Else
it has, for every project and every hub and leaf that both host it, the rule with which the hub
pushes, or if it cannot push the one with which the leaf pulls, or if neither can none at all; it
has no other rule, and none twice. By every rule images flow from the hub to a leaf. -/
theorem planFleet_exact (settings : TopologySettings)
    (hregistries : (registries.map Registry.name).Nodup)
    (hprojects : (projects.map ProjectSpec.name).Nodup) :
    ((∃ e, planFleet settings registries projects = .error e) ↔ 1 < (hubs registries).length)
      ∧ ∀ rules, planFleet settings registries projects = .ok rules →
        rules.Nodup
        ∧ (∀ rule ∈ rules, ∃ project ∈ projects, ∃ hub leaf, Hosted registries project hub leaf
            ∧ rule ∈ edgeRules settings project hub leaf
            ∧ CopyJob.ends rule rule.here rule.there = (hub.name, leaf.name))
        ∧ ∀ project ∈ projects, ∀ hub leaf, Hosted registries project hub leaf →
            rules.filter (Rule.joins project hub leaf) = edgeRules settings project hub leaf := by
  refine ⟨⟨fun ⟨e, he⟩ => Nat.not_le.1 fun hhubs => ?_, planFleet_of_hubs⟩, fun rules h =>
    ⟨nodup_planFleet hregistries hprojects h, fun rule hrule => ?_,
      fun project hproject hub leaf => filter_joins hregistries hprojects h hproject⟩⟩
  · have hplan : ∃ rules, planFleet settings registries projects = .ok rules :=
      planFleet_ok_iff.2 hhubs
    obtain ⟨rules, hrules⟩ := hplan
    rw [he] at hrules
    cases hrules
  · obtain ⟨project, hproject, hub, leaf, hhosted, hmem⟩ := hosted_of_mem_planFleet h hrule
    exact ⟨project, hproject, hub, leaf, hhosted, hmem, ends_of_mem_edgeRules hmem⟩

/-- A hub that cannot push, with a leaf that can pull and one that cannot. -/
def mixedFleet : List Registry :=
  [ ⟨"hub", "https://hub.example.com", ⟨"admin", "secret"⟩, .artifactory, .globalHub,
      ⟨false, none⟩, .empty⟩,
    ⟨"edge", "https://edge.example.com", ⟨"admin", "secret"⟩, .harbor, .leaf, ⟨false, none⟩,
      .empty⟩,
    ⟨"store", "https://store.example.com", ⟨"admin", "secret"⟩, .acr, .leaf, ⟨false, none⟩,
      .empty⟩ ]

/-- A project on all registries and one on two of them. -/
def mixedProjects : List ProjectSpec :=
  [⟨"os", .everywhere, [], [], none⟩, ⟨"web", .listed, ["hub", "edge"], [], some "manual"⟩]

theorem planFleet_exact_mixed :
    ((∃ e, planFleet .standard mixedFleet mixedProjects = .error e)
        ↔ 1 < (hubs mixedFleet).length)
      ∧ ∀ rules, planFleet .standard mixedFleet mixedProjects = .ok rules →
        rules.Nodup
        ∧ (∀ rule ∈ rules, ∃ project ∈ mixedProjects, ∃ hub leaf,
            Hosted mixedFleet project hub leaf ∧ rule ∈ edgeRules .standard project hub leaf
            ∧ CopyJob.ends rule rule.here rule.there = (hub.name, leaf.name))
        ∧ ∀ project ∈ mixedProjects, ∀ hub leaf, Hosted mixedFleet project hub leaf →
            rules.filter (Rule.joins project hub leaf)
              = edgeRules .standard project hub leaf := by
  have hregistries : (mixedFleet.map Registry.name).Nodup := by decide
  have hprojects : (mixedProjects.map ProjectSpec.name).Nodup := by decide
  exact planFleet_exact .standard hregistries hprojects

end RegistryFleet
