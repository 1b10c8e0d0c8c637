import RegistryFleet.Proofs.Copy.Shell
import RegistryFleet.Proofs.Reconcile.InMemory
import RegistryFleet.Proofs.Topology.Plan

/-!
# Proofs/Copy/Delivery — a job copies what the hub lists to the leaf

What a job does is read off its two objects: the script of its container, run with the variables of
its config map. Which end of a rule is the source depends on its direction, but for the rules of a
plan the source is always the hub and the destination always the leaf.

* `CopyTool.commands?` — the commands that a script runs, and `CopyJob.commands?` those of a job.
* `CopyTool.commands?_of_script?` — the commands of a script, whatever the credentials.
* `CopyJob.prepare_eq` — the job of a rule is built for the repositories of its source.
* `CopyJob.writeFor_delivers` — every job that is written copies from the hub to the leaf.
-/

namespace RegistryFleet

open Shell (AllRead Reads Unsplit)

/-! ## What a job runs -/

namespace CopyTool

/-- What a script begins with that runs its body for every field of `REPOSITORIES`. -/
def loopHead : String :=
  "repoArray=($\x7bREPOSITORIES\x7d)\nfor repo in \"$\x7brepoArray[@]\x7d\"\ndo\n\t"

/-- The body of a script that is such a loop. -/
def loopBody? (script : String) : Option (List Char) :=
  (script.toList.dropPrefix? loopHead.toList).bind fun rest => rest.dropSuffix? "\ndone".toList

/-- **The commands that a script runs** — those of its body, for every field in turn. A field that
is a pattern for file names matches none and stays as it is. -/
def commands? (value : Shell.Variables) (script : String) : Option (List (List String)) := do
  let body ← loopBody? script
  let rounds ← (Shell.fields (value "REPOSITORIES")).mapM fun field =>
    Shell.commands? (fun name => if name = "repo" then field else value name) body
  return rounds.flatten

end CopyTool

/-- The variables of a container that reads these config maps; what a later one binds holds. -/
def ConfigMap.variables (maps : List ConfigMap) (names : List String) : Shell.Variables :=
  fun v =>
    (names.reverse.findSome? fun name =>
      (maps.find? fun o => o.metadata.name == some name).bind fun o =>
        o.data.bind fun data => data.get? v).getD ""

/-- **The commands that a job runs**, if it is one script for a shell. -/
def CopyJob.commands? (job : CopyJob) : Option (List (List String)) :=
  match job.cronJob.spec.map CronSchedule.containers with
  | some [c] =>
    match c.command, c.args with
    | some ["/bin/bash"], some ["-c", script] =>
      CopyTool.commands? (ConfigMap.variables [job.configMap] (c.settings.getD [])) script
    | _, _ => none
  | _ => none

/-! ## The script -/

namespace CopyTool

variable {value : Shell.Variables} {source destination : Credentials} {target : String}

/-- The variable of the loop is replaced by its value; every other argument stays as it is. -/
theorem reads_scriptWord? {argument word : String} (h : scriptWord? argument = some word) :
    Reads value word.toList
      (if argument = loopVariable then value "repo" else argument).toList := by
  unfold scriptWord? at h
  split at h
  · next hvariable =>
    obtain rfl := Option.some.inj h
    rw [if_pos hvariable]
    have hname : Shell.Reader.inName [] 'r' = true := rfl
    have hrest : ['e', 'p', 'o'].all (Shell.Reader.inName ['r']) = true := rfl
    exact Shell.reads_variable hname hrest
  · next hvariable =>
    rw [if_neg hvariable]
    unfold Shell.word? at h
    split at h
    · cases h
    · obtain rfl := Option.some.inj h
      rw [String.toList_ofList]
      exact Shell.reads_wordOf argument.toList

theorem allRead_mapM : ∀ {arguments words : List String},
    arguments.mapM scriptWord? = some words →
      AllRead value words
        (arguments.map fun a => if a = loopVariable then value "repo" else a)
  | [], _, h => by
      obtain rfl := Option.some.inj h
      exact .nil
  | a :: arguments, _, h => by
      rw [List.mapM_cons] at h
      obtain ⟨word, hword, h⟩ := Option.bind_eq_some_iff.1 h
      obtain ⟨words, hwords, h⟩ := Option.bind_eq_some_iff.1 h
      obtain rfl := Option.some.inj h
      exact .cons (reads_scriptWord? hword) (allRead_mapM hwords)

/-- A pair of credentials is not the variable of the loop. -/
theorem pair_ne_loopVariable (c : Credentials) : c.pair ≠ loopVariable := fun he => by
  have hmem : ':' ∈ c.pair.toList := by simp [Credentials.pair]
  rw [he] at hmem
  exact absurd hmem (by decide)

/-- The body of a script stands between its head and its end. -/
theorem loopBody?_script (body : String) :
    loopBody? (scriptHead ++ body ++ "\ndone") = some body.toList := by
  have hhead : scriptHead = loopHead := rfl
  rw [loopBody?, hhead, String.toList_append, String.toList_append, List.append_assoc,
    List.dropPrefix?_eq_some_iff.2 ⟨_, rfl, BEq.rfl⟩, Option.bind_some,
    List.dropSuffix?_eq_some_iff.2 ⟨_, rfl, BEq.rfl⟩]

/-- In the arguments of the loop only the source is replaced. -/
theorem map_syncArguments (htarget : target ≠ loopVariable) (field : String) :
    (syncArguments loopVariable source target destination).map
        (fun a => if a = loopVariable then field else a)
      = syncArguments field source target destination := by
  have hsource : source.pair ≠ "$repo" := pair_ne_loopVariable source
  have hdestination : destination.pair ≠ "$repo" := pair_ne_loopVariable destination
  have htarget : target ≠ "$repo" := htarget
  simp [syncArguments, loopVariable, hsource, hdestination, htarget]

/-- The words of a script are read as its arguments, with the value of the loop's variable. -/
theorem allRead_commandWords? {words : List String} (htarget : target ≠ loopVariable)
    (h : commandWords? source target destination = some words) :
    words ≠ []
      ∧ AllRead value words (tool :: syncArguments (value "repo") source target destination) := by
  obtain ⟨arguments, harguments, h⟩ := Option.bind_eq_some_iff.1 h
  obtain rfl := Option.some.inj h
  have htool : Reads value tool.toList tool.toList := Shell.reads_bareText (by decide) (by decide)
  refine ⟨List.cons_ne_nil _ _, .cons htool ?_⟩
  rw [← map_syncArguments htarget]
  exact allRead_mapM harguments

/-- The words of a script are one command. -/
theorem commands?_of_commandWords? {words : List String} (htarget : target ≠ loopVariable)
    (h : commandWords? source target destination = some words) :
    Shell.commands? value (" ".intercalate words).toList
      = some [tool :: syncArguments (value "repo") source target destination] :=
  let ⟨hwords, hread⟩ := allRead_commandWords? htarget h
  Shell.commands?_intercalate hread hwords

/-- **The commands of a script** — one for every field, with its own two pairs of credentials. -/
theorem commands?_of_script? {script : String} (htarget : target ≠ loopVariable)
    (h : script? source target destination = some script) :
    commands? value script = some ((Shell.fields (value "REPOSITORIES")).map fun field =>
      ["skopeo", "sync", "--src", "docker", "--dest", "docker", "--src-creds", source.pair,
        "--dest-creds", destination.pair, field, target]) := by
  obtain ⟨words, hwords, h⟩ := Option.bind_eq_some_iff.1 h
  obtain rfl := Option.some.inj h
  have hround : ∀ field, Shell.commands? (fun name => if name = "repo" then field else value name)
      (" ".intercalate words).toList
        = pure [tool :: syncArguments field source target destination] := fun field =>
    commands?_of_commandWords? htarget hwords
  rw [commands?, loopBody?_script, Option.bind_eq_bind, Option.bind_some, funext hround,
    List.mapM_pure]
  exact congrArg some (List.flatMap_def.symm.trans List.map_eq_flatMap.symm)

end CopyTool

/-! ## The job -/

namespace CopyJob

variable {settings : JobSettings} {rule : Rule} {job : CopyJob} {source destination : Registry}

/-- The references of a source are the fields of their variable, if none can be split. -/
theorem fields_sources {repositories : List Repository}
    (h : ∀ s ∈ sources source repositories, Unsplit s) :
    Shell.fields (" ".intercalate (sources source repositories)) = sources source repositories := by
  refine Shell.fields_intercalate fun s hs => ⟨fun hempty => ?_, h s hs⟩
  obtain ⟨r, -, rfl⟩ := List.mem_map.1 hs
  simp at hempty

/-- The container of a job finds the references in their variable. -/
theorem variables_configMapFor (repositories : List Repository) :
    ConfigMap.variables [configMapFor settings rule source repositories] [configMapName rule]
        "REPOSITORIES"
      = " ".intercalate (sources source repositories) := by
  have hname : (configMapFor settings rule source repositories).metadata.name
      = some (configMapName rule) := rfl
  have hdata : (configMapFor settings rule source repositories).data.bind
        (fun data => data.get? "REPOSITORIES")
      = some (" ".intercalate (sources source repositories)) :=
    Keyed.get?_insert_self _ _ _
  simp [ConfigMap.variables, hname, hdata]

/-- A destination is not the variable of the loop: it has a slash. -/
theorem destinationOf_ne_loopVariable (destination : Registry) (rule : Rule) :
    destinationOf destination rule ≠ CopyTool.loopVariable := fun he => by
  have hmem : '/' ∈ (destinationOf destination rule).toList := by simp [destinationOf]
  rw [he] at hmem
  exact absurd hmem (by decide)

/-- **The commands of a job** copy every reference to one destination. -/
theorem commands?_of_build {repositories : List Repository}
    (hunsplit : ∀ s ∈ sources source repositories, Unsplit s)
    (h : build settings rule source destination repositories = .ok job) :
    job.commands? = some ((sources source repositories).map fun reference =>
      ["skopeo", "sync", "--src", "docker", "--dest", "docker",
        "--src-creds", source.credentials.pair, "--dest-creds", destination.credentials.pair,
        reference, destinationOf destination rule]) := by
  obtain ⟨schedule, script, -, hscript, rfl⟩ := of_build h
  have hcommands : CopyTool.commands? (ConfigMap.variables
      [configMapFor settings rule source repositories] [configMapName rule]) script = _ :=
    CopyTool.commands?_of_script? (destinationOf_ne_loopVariable destination rule) hscript
  rw [variables_configMapFor, fields_sources hunsplit] at hcommands
  exact hcommands

/-! ## The ends of a rule -/

/-- The source of a rule and its destination are looked up by name. -/
theorem endsOf_eq {ω : Type} {backends : List (Served ω)} {source destination : Served ω}
    (hends : ends rule rule.here rule.there = (source.registry.name, destination.registry.name))
    (hsource : backendFor backends source.registry.name = .ok source)
    (hdestination : backendFor backends destination.registry.name = .ok destination) :
    endsOf backends rule = .ok (source, destination) := by
  unfold endsOf
  unfold ends at hends ⊢
  cases hdirection : rule.direction with
  | push =>
    rw [hdirection] at hends
    obtain ⟨hhere, hthere⟩ := Prod.mk.inj hends
    rw [hhere, hthere, hsource, hdestination]
    rfl
  | pull =>
    rw [hdirection] at hends
    obtain ⟨hthere, hhere⟩ := Prod.mk.inj hends
    rw [hhere, hthere, hsource, hdestination]
    rfl

variable {w : World} {ms : List Memory} {m hub leaf : Memory} {i j : Nat}

theorem getElem?_served (hw : w.backends = ms.map .memory) (i : Nat) :
    w.served[i]? = ms[i]?.map fun m => ⟨m.registry, World.serve i⟩ := by
  rw [World.served, List.getElem?_map, getElem?_numbered, hw, List.getElem?_map]
  cases ms[i]? <;> rfl

theorem names_served (hw : w.backends = ms.map .memory) :
    (w.served.map fun b => b.registry.name) = ms.map fun m => m.registry.name := by
  refine List.ext_getElem? fun i => ?_
  rw [List.getElem?_map, getElem?_served hw, List.getElem?_map, Option.map_map]
  rfl

/-- **A backend in memory is found by its name**, if no other has it. -/
theorem backendFor_served (hw : w.backends = ms.map .memory)
    (hnames : (ms.map fun m => m.registry.name).Nodup) (hi : ms[i]? = some m) :
    backendFor w.served m.registry.name = .ok ⟨m.registry, World.serve i⟩ := by
  have hserved : w.served[i]? = some ⟨m.registry, World.serve i⟩ := by
    rw [getElem?_served hw, hi]
    rfl
  obtain ⟨hlt, hget⟩ := List.getElem?_eq_some_iff.1 hserved
  have hdistinct : w.served.Pairwise fun a b => a.registry.name ≠ b.registry.name :=
    List.pairwise_map.1 (names_served hw ▸ hnames)
  have hfind : w.served.find? (fun b => b.registry.name == m.registry.name)
      = some ⟨m.registry, World.serve i⟩ := by
    refine List.find?_eq_some_iff_getElem.2 ⟨BEq.rfl, i, hlt, hget, fun k hk => ?_⟩
    have hne := List.pairwise_iff_getElem.1 hdistinct k i (hk.trans hlt) hlt hk
    rw [hget] at hne
    simpa using hne
  rw [backendFor, hfind]

/-- The repositories that a project of a backend has; one that is not there has none. -/
def repositoryNames (m : Memory) (project : String) : List String :=
  (m.projects.get? project).elim [] Holding.repositories

/-- Listing the repositories of a project changes nothing. -/
theorem run_repositoriesOf (hi : w.memory? i = some m) (project : String) :
    (repositoriesOf project).run (World.serve i) w
      = (.ok ((repositoryNames m project).map (Repository.mk project)), w) := by
  have hfind := Memory.serve_findProject project m
  have hworld := World.serve_of_unchanged hi (c := .findProject project) (by rw [hfind])
  rw [repositoriesOf, Calls.run_bind, Calls.run_one, hworld, hfind]
  cases hm : m.projects.get? project with
  | none => simp [Calls.run, repositoryNames, hm, Memory.noProject]
  | some h =>
    have hlist := Memory.serve_listRepositories hm
    have hworld := World.serve_of_unchanged hi (c := .listRepositories (.named project))
      (by rw [hlist])
    simp only [repositoryNames, hm, Option.elim_some]
    exact hworld.trans (by rw [hlist])

/-- **The job of a rule** is built for the repositories of its source. -/
theorem prepare_eq {settings : JobSettings} (hw : w.backends = ms.map .memory)
    (hnames : (ms.map fun m => m.registry.name).Nodup) (hhub : hub ∈ ms) (hleaf : leaf ∈ ms)
    (hends : ends rule rule.here rule.there = (hub.registry.name, leaf.registry.name)) :
    prepare w.served settings rule w
      = (build settings rule hub.registry leaf.registry
          ((repositoryNames hub rule.project).map (Repository.mk rule.project)), w) := by
  obtain ⟨i, hi⟩ := List.mem_iff_getElem?.1 hhub
  obtain ⟨j, hj⟩ := List.mem_iff_getElem?.1 hleaf
  have hmemory : w.memory? i = some hub := (World.memory?_of_backends hw i).trans hi
  have hsource := backendFor_served hw hnames hi
  have hdestination := backendFor_served hw hnames hj
  have hboth : endsOf w.served rule
      = .ok (⟨hub.registry, World.serve i⟩, ⟨leaf.registry, World.serve j⟩) :=
    endsOf_eq hends hsource hdestination
  rw [prepare, hboth]
  simp only [run_repositoriesOf hmemory]

/-- References between whose parts nothing can be split. -/
theorem unsplit_sources {names : List String} {project : String} (hhost : Unsplit source.host)
    (hnames : ∀ name ∈ names, Unsplit name) :
    ∀ s ∈ sources source (names.map (Repository.mk project)), Unsplit s := by
  intro s hs c hc
  rw [sources, List.map_map] at hs
  obtain ⟨name, hname, rfl⟩ := List.mem_map.1 hs
  rcases List.mem_append.1 (String.toList_append ▸ hc) with hc | hc
  · rcases List.mem_append.1 (String.toList_append ▸ hc) with hc | hc
    · exact hhost c hc
    · obtain rfl : c = '/' := by simpa using hc
      rfl
  · exact hnames name hname c hc

/-- **Every job that is written copies from the hub to the leaf.** For a rule of a plan there are a
hub and a leaf that both host its project, and the job that is written runs one command for every
repository that the hub lists in the project, in that order: with the credentials of the hub for the
source, those of the leaf for the destination, and the leaf's project as the destination. Where the
hub does not have the project, no command is run. -/
theorem writeFor_delivers {σ : Type} {registries : List Registry} {projects : List ProjectSpec}
    {rules : List Rule} {topology : TopologySettings} {store : ObjectStore σ} {w' : World}
    {s s' : σ} (hregistries : (registries.map Registry.name).Nodup)
    (hplan : planFleet topology registries projects = .ok rules) (hrule : rule ∈ rules)
    (hw : w.backends = ms.map .memory) (hms : (ms.map Memory.registry).Perm registries)
    (hwrite : writeFor w.served store settings rule w s = (.ok (), w', s')) :
    ∃ project ∈ projects, ∃ hub ∈ ms, ∃ leaf ∈ ms, ∃ job,
      project.name = rule.project
      ∧ Hosted registries project hub.registry leaf.registry
      ∧ ends rule rule.here rule.there = (hub.registry.name, leaf.registry.name)
      ∧ prepare w.served settings rule w = (.ok job, w)
      ∧ store.writeAll job.objects s = (.ok (), s')
      ∧ w' = w
      ∧ (Unsplit hub.registry.host → (∀ name ∈ repositoryNames hub rule.project, Unsplit name) →
          job.commands? = some ((repositoryNames hub rule.project).map fun name =>
            ["skopeo", "sync", "--src", "docker", "--dest", "docker",
              "--src-creds", hub.registry.credentials.pair,
              "--dest-creds", leaf.registry.credentials.pair,
              hub.registry.host ++ "/" ++ name, leaf.registry.host ++ "/" ++ rule.project])) := by
  obtain ⟨project, hproject, hub', leaf', hhosted, hedge⟩ := hosted_of_mem_planFleet hplan hrule
  obtain ⟨hub, hhub, rfl⟩ := List.mem_map.1 (hms.mem_iff.2 hhosted.hub_mem)
  obtain ⟨leaf, hleaf, rfl⟩ := List.mem_map.1 (hms.mem_iff.2 hhosted.leaf_mem)
  have hends := ends_of_mem_edgeRules hedge
  have hnames : (ms.map fun m => m.registry.name).Nodup := by
    have hperm := hms.map Registry.name
    rw [List.map_map] at hperm
    exact hperm.nodup_iff.2 hregistries
  have hprepare : prepare w.served settings rule w = _ := prepare_eq hw hnames hhub hleaf hends
  have hname : rule.project = project.name := by
    rcases (mem_edgeRules hhosted.isHub hhosted.isLeaf).1 hedge with hbetween | hbetween
    · exact (Rule.names_of_between? hbetween).1
    · exact (Rule.names_of_between? hbetween).1
  rw [writeFor, hprepare] at hwrite
  cases hbuild : build settings rule hub.registry leaf.registry
      ((repositoryNames hub rule.project).map (Repository.mk rule.project)) with
  | error e => simp [hbuild] at hwrite
  | ok job =>
    rw [hbuild] at hwrite hprepare
    obtain ⟨hwritten, hrest⟩ := Prod.mk.inj hwrite
    obtain ⟨rfl, hs⟩ := Prod.mk.inj hrest
    refine ⟨project, hproject, hub, hhub, leaf, hleaf, job, hname.symm, hhosted, hends, hprepare,
      Prod.ext hwritten hs, rfl, fun hhost hrepositories => ?_⟩
    have hcommands := commands?_of_build (unsplit_sources hhost hrepositories) hbuild
    rw [sources, List.map_map, List.map_map] at hcommands
    exact hcommands

/-- A hub that leaves the replication to its leaf. -/
def pullBackends : List Memory :=
  [ (Memory.ofRegistry ⟨"hub", "https://hub.example.com", ⟨"admin", "it's ^ $1"⟩, .artifactory,
      .globalHub, ⟨false, none⟩, .empty⟩).addProject "os" ["base", "tools"],
    .ofRegistry ⟨"edge", "https://edge.example.com", ⟨"robot$edge", "secret"⟩, .harbor, .leaf,
      ⟨false, none⟩, .empty⟩ ]

/-- The rule of the leaf. -/
def pullRule : Rule := ⟨"os", "edge", "hub", .pull, ⟨"cron */10 * * * *"⟩, .copyTool⟩

/-- A store that keeps every object. -/
def keepingStore : ObjectStore (List ClusterObject) :=
  ⟨fun o kept => (.ok (), kept ++ [o]), fun _ kept => (.ok (), kept)⟩

theorem writeFor_delivers_pull : ∃ job,
    prepare (World.ofMemories pullBackends).served .standard pullRule
        (World.ofMemories pullBackends)
      = (.ok job, World.ofMemories pullBackends)
    ∧ job.commands? = some (["os/base", "os/tools"].map fun name =>
        ["skopeo", "sync", "--src", "docker", "--dest", "docker",
          "--src-creds", "admin:it's ^ $1", "--dest-creds", "robot$edge:secret",
          "hub.example.com/" ++ name, "edge.example.com/os"]) := by
  have hplan : planFleet .standard (pullBackends.map Memory.registry)
      [⟨"os", .everywhere, [], [], none⟩] = .ok [pullRule] := by decide +kernel
  have hwritten : (writeFor (World.ofMemories pullBackends).served keepingStore .standard pullRule
      (World.ofMemories pullBackends) []).1 = .ok () := by decide +kernel
  obtain ⟨project, -, hub, hhub, leaf, hleaf, job, -, -, hends, hprepare, -, -, hcommands⟩ :=
    writeFor_delivers (by decide +kernel) hplan List.mem_cons_self rfl (.refl _)
      (Prod.ext hwritten rfl)
  obtain ⟨hhubName, hleafName⟩ := Prod.mk.inj hends
  have hhubOnly : ∀ m ∈ pullBackends, "hub" = m.registry.name → m = pullBackends[0] := by
    decide +kernel
  have hleafOnly : ∀ m ∈ pullBackends, "edge" = m.registry.name → m = pullBackends[1] := by
    decide +kernel
  obtain rfl := hhubOnly hub hhub hhubName
  obtain rfl := hleafOnly leaf hleaf hleafName
  exact ⟨job, hprepare, hcommands (by decide +kernel) (by decide +kernel)⟩

end CopyJob

end RegistryFleet
