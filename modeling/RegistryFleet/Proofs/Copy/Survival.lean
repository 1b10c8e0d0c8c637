import RegistryFleet.Copy.Sync
import RegistryFleet.Fleet.Snapshot
import RegistryFleet.Proofs.Copy.Names
import RegistryFleet.Proofs.Reconcile.InMemory

/-!
# Proofs/Copy/Survival — which manifests are left when all rules have been dealt with

The two manifests of a rule are named after its project and the registry at its other end. Rules
whose names agree, in full or only as names of objects, share the two files, so that the last one of
them that does not fail decides what is left.

* `CopyJob.deed` — what a rule does to the two files of its name.
* `CopyJob.sync_slot` — what the last deed leaves is what is there at the end.
* `CopyJob.sync_keeps_iff` — when the job of a rule is still there at the end.
-/

namespace RegistryFleet

open Files (Simple Folder key)

namespace ManifestDirectory

/-- **A manifest is there**, with the text of the object. -/
def Holds (d : ManifestDirectory) (files : Files) (o : ClusterObject) : Prop :=
  ∃ path, d.pathOf o = .ok path ∧ files.read path = .ok (Yaml.document o.data)

/-- A manifest can be written. -/
def Accepts (d : ManifestDirectory) (files : Files) (o : ClusterObject) : Prop :=
  ∃ files', d.write o files = .ok files'

variable {d : ManifestDirectory} {here : List String} {files : Files} {o : ClusterObject}
  {name : String}

theorem write_eq {path : String} (hpath : d.pathOf o = .ok path) :
    d.write o files = match files.write path (Yaml.document o.data) with
      | .ok files => .ok files
      | .error e => .error (.file path e) := by
  rw [write, hpath]
  rfl

theorem remove_eq {path : String} (hpath : d.pathOf o = .ok path) :
    d.remove o files = match files.remove path with
      | .ok files => .ok files
      | .error .absent => .ok files
      | .error e => .error (.file path e) := by
  rw [remove, hpath]
  rfl

theorem accepts_of_isSome (h : (d.write o files).toOption.isSome = true) : d.Accepts files o := by
  cases hwrite : d.write o files with
  | ok files' => exact ⟨files', hwrite⟩
  | error e => rw [hwrite] at h; cases h

theorem Accepts.write {path : String} (h : d.Accepts files o) (hpath : d.pathOf o = .ok path) :
    ∃ files', files.write path (Yaml.document o.data) = .ok files' := by
  obtain ⟨files', h⟩ := h
  rw [write_eq hpath] at h
  split at h
  · next written hwrite => exact ⟨written, hwrite⟩
  · cases h

/-- Writing an object changes its file. -/
theorem store_write (hpath : d.pathOf o = .ok (Files.join d.path name)) (hname : Simple name)
    (hfolder : files.Folder d.path here) (ht : Folder.Takes files d.path here name) :
    ∃ files', d.store.write o files = (.ok (), files')
      ∧ Folder.Change d.path here name (some (Yaml.document o.data)) files files' := by
  obtain ⟨files', hwrite, hchange⟩ := hfolder.write hname ht (Yaml.document o.data)
  refine ⟨files', ?_, hchange⟩
  change commit (d.write o) files = _
  rw [commit, write_eq hpath, hwrite]

/-- Removing an object leaves its file absent. -/
theorem store_remove (hpath : d.pathOf o = .ok (Files.join d.path name)) (hname : Simple name)
    (hfolder : files.Folder d.path here) (ht : Folder.Takes files d.path here name) :
    ∃ files', d.store.remove o files = (.ok (), files')
      ∧ Folder.Change d.path here name none files files' := by
  change ∃ files', commit (d.remove o) files = _ ∧ _
  rw [commit, remove_eq hpath]
  rcases hfolder.remove hname ht with ⟨habsent, hremove⟩ | ⟨files', hremove, hchange⟩
  · rw [hremove]
    exact ⟨files, rfl, hfolder, habsent, fun _ _ => rfl⟩
  · rw [hremove]
    exact ⟨files', rfl, hchange⟩

/-- A manifest of a folder is there just if its file holds it. -/
theorem holds_iff (hpath : d.pathOf o = .ok (Files.join d.path name)) (hname : Simple name)
    (hfolder : files.Folder d.path here) (ht : Folder.Takes files d.path here name) :
    d.Holds files o ↔ files.at? (here ++ [name]) = some (.file (Yaml.document o.data)) := by
  rw [← hfolder.read_eq_ok_iff hname ht.sound, Holds, hpath]
  exact ⟨fun ⟨_, he, hread⟩ => Except.ok.inj he ▸ hread, fun hread => ⟨_, rfl, hread⟩⟩

end ManifestDirectory

namespace CopyJob

/-! ## The two files of a name -/

/-- What the two files of a name are. -/
def slot (here : List String) (files : Files) (base : String) : Option Entry × Option Entry :=
  (files.at? (here ++ [configMapFile base]), files.at? (here ++ [cronJobFile base]))

/-- What the two files of a name are when a job has been written, or removed. -/
def slotOf : Option CopyJob → Option Entry × Option Entry
  | none => (none, none)
  | some job => (some (.file (Yaml.document (ClusterObject.configMap job.configMap).data)),
      some (.file (Yaml.document (ClusterObject.cronJob job.cronJob).data)))

/-- **The files of a name can be written.** -/
structure Ready (d : ManifestDirectory) (here : List String) (files : Files) (base : String) :
    Prop where
  folder : files.Folder d.path here
  configMap : Folder.Takes files d.path here (configMapFile base)
  cronJob : Folder.Takes files d.path here (cronJobFile base)

/-- **The two files of a name have been changed**, and nothing else. -/
structure Replaced (d : ManifestDirectory) (here : List String) (base : String)
    (job : Option CopyJob) (files files' : Files) : Prop where
  ready : ∀ other, Ready d here files other → Ready d here files' other
  self : slot here files' base = slotOf job
  rest : ∀ k, k ≠ key (here ++ [configMapFile base]) → k ≠ key (here ++ [cronJobFile base]) →
    files'.entries.get? k = files.entries.get? k

variable {d : ManifestDirectory} {here : List String} {files files₁ files₂ : Files} {base : String}

/-- A change of one file of the name, and then of the other. -/
theorem Replaced.of_changes {job : Option CopyJob} {a b : String}
    (hnames : (a = configMapFile base ∧ b = cronJobFile base)
      ∨ (a = cronJobFile base ∧ b = configMapFile base))
    {atA atB : Option String} (h₁ : Folder.Change d.path here a atA files files₁)
    (h₂ : Folder.Change d.path here b atB files₁ files₂)
    (hself : slot here files₂ base = slotOf job) : Replaced d here base job files files₂ where
  ready other h := ⟨h₂.folder, h₂.takes (h₁.takes h.configMap), h₂.takes (h₁.takes h.cronJob)⟩
  self := hself
  rest k hmap hjob := by
    rcases hnames with ⟨rfl, rfl⟩ | ⟨rfl, rfl⟩
    · rw [h₂.rest k hjob, h₁.rest k hmap]
    · rw [h₂.rest k hmap, h₁.rest k hjob]

/-- The files of other names are none of the two. -/
theorem Replaced.others {job : Option CopyJob} (h : Replaced d here base job files files₁)
    (other : String) (hne : other ≠ base) : slot here files₁ other = slot here files other := by
  have hmap : configMapFile other ≠ configMapFile base := fun he => hne (configMapFile_inj.1 he)
  have hjob : cronJobFile other ≠ cronJobFile base := fun he => hne (cronJobFile_inj.1 he)
  have hmixed := configMapFile_ne_cronJobFile
  have hfile : ∀ name, name ≠ configMapFile base → name ≠ cronJobFile base →
      files₁.at? (here ++ [name]) = files.at? (here ++ [name]) := fun name hm hj => by
    rw [Files.at?_append, Files.at?_append]
    exact h.rest _ (fun he => hm (Files.key_append_inj.1 he))
      fun he => hj (Files.key_append_inj.1 he)
  rw [slot, slot, hfile _ hmap (hmixed _ _), hfile _ (hmixed _ _).symm hjob]

/-- **A job is written.** -/
theorem writeAll_objects {job : CopyJob} {rule : Rule}
    (hmap : job.configMap.metadata.name = some (configMapName rule))
    (hjob : job.cronJob.metadata.name = some (jobName rule))
    (h : Ready d here files (baseName rule)) :
    ∃ files', d.store.writeAll job.objects files = (.ok (), files')
      ∧ Replaced d here (baseName rule) (some job) files files' := by
  obtain ⟨files₁, hwrite₁, hchange₁⟩ := ManifestDirectory.store_write (pathOf_configMap d hmap)
    (simple_configMapFile rule) h.folder h.configMap
  obtain ⟨files₂, hwrite₂, hchange₂⟩ := ManifestDirectory.store_write (pathOf_cronJob d hjob)
    (simple_cronJobFile rule) hchange₁.folder (hchange₁.takes h.cronJob)
  refine ⟨files₂, ?_, .of_changes (.inl ⟨rfl, rfl⟩) hchange₁ hchange₂ ?_⟩
  · simp only [ObjectStore.writeAll, objects, ObjectStore.each, hwrite₁, hwrite₂]
  · rw [slot, hchange₂.self, hchange₂.others _ (configMapFile_ne_cronJobFile _ _), hchange₁.self]
    rfl

/-- **A job is removed**, if there is one. -/
theorem removeAll_identity {rule : Rule} (settings : JobSettings)
    (h : Ready d here files (baseName rule)) :
    ∃ files', d.store.removeAll (identity settings rule) files = (.ok (), files')
      ∧ Replaced d here (baseName rule) none files files' := by
  obtain ⟨files₁, hremove₁, hchange₁⟩ := ManifestDirectory.store_remove
    (o := .cronJob { metadata := bareMetadata settings (jobName rule) })
    (pathOf_cronJob d rfl) (simple_cronJobFile rule) h.folder h.cronJob
  obtain ⟨files₂, hremove₂, hchange₂⟩ := ManifestDirectory.store_remove
    (o := .configMap { metadata := bareMetadata settings (configMapName rule) })
    (pathOf_configMap d rfl) (simple_configMapFile rule) hchange₁.folder
    (hchange₁.takes h.configMap)
  refine ⟨files₂, ?_, .of_changes (.inr ⟨rfl, rfl⟩) hchange₁ hchange₂ ?_⟩
  · simp only [ObjectStore.removeAll, identity, ObjectStore.each, hremove₁, hremove₂]
  · rw [slot, hchange₂.self, hchange₂.others _ (configMapFile_ne_cronJobFile _ _).symm,
      hchange₁.self]
    rfl

/-! ## One rule -/

variable {ω : Type} {backends : List (Served ω)} {settings : JobSettings} {rule : Rule}
  {world world' : ω} {job : CopyJob}

/-- The objects of a job are named after its rule. -/
theorem names_of_build {source destination : Registry} {repositories : List Repository}
    (h : build settings rule source destination repositories = .ok job) :
    job.configMap.metadata.name = some (configMapName rule)
      ∧ job.cronJob.metadata.name = some (jobName rule) := by
  obtain ⟨schedule, script, -, -, rfl⟩ := of_build h
  exact ⟨rfl, rfl⟩

theorem names_of_prepare (h : prepare backends settings rule world = (.ok job, world')) :
    job.configMap.metadata.name = some (configMapName rule)
      ∧ job.cronJob.metadata.name = some (jobName rule) := by
  unfold prepare at h
  split at h
  · cases h
  · split at h
    · cases h
    · exact names_of_build (Prod.mk.inj h).1

/-- **What a rule does to the files of its name** — it leaves them with a job, without one, or as
they are; and the world after it. -/
def deed (backends : List (Served ω)) (settings : JobSettings) (rule : Rule) (world : ω) :
    Option (Option CopyJob) × ω :=
  match rule.transport with
  | .native => (some none, world)
  | .copyTool =>
    match prepare backends settings rule world with
    | (.ok job, world) => (some (some job), world)
    | (.error _, world) => (none, world)

/-- What is said of a rule by its deed. -/
def Told : Option (Option CopyJob) → ActionStatus → Prop
  | none, status => ∃ reason, status = .failed reason
  | some none, status => ∃ reason, status = .skipped reason
  | some (some _), status => status = .succeeded

theorem Told.succeeded_iff {done : Option (Option CopyJob)} {status : ActionStatus}
    (h : Told done status) : status = .succeeded ↔ ∃ job, done = some (some job) := by
  rcases done with _ | _ | job
  · obtain ⟨reason, rfl⟩ := h
    simp
  · obtain ⟨reason, rfl⟩ := h
    simp
  · exact iff_of_true h ⟨job, rfl⟩

/-- **One rule** — its deed is done and told. -/
theorem syncRule_told (backends : List (Served ω)) (settings : JobSettings) (world : ω)
    (h : Ready d here files (baseName rule)) :
    ∃ status files', syncRule backends d.store settings rule world files
        = (.plain (describe rule) status, (deed backends settings rule world).2, files')
      ∧ Told (deed backends settings rule world).1 status
      ∧ match (deed backends settings rule world).1 with
        | some job => Replaced d here (baseName rule) job files files'
        | none => files' = files := by
  unfold syncRule deed
  cases htransport : rule.transport with
  | native =>
    obtain ⟨files', hremove, hreplaced⟩ := removeAll_identity settings h
    simp only [hremove]
    exact ⟨_, files', rfl, ⟨_, rfl⟩, hreplaced⟩
  | copyTool =>
    simp only [writeFor]
    generalize hprepare : prepare backends settings rule world = out
    obtain ⟨built, world'⟩ := out
    cases built with
    | error e => exact ⟨_, files, rfl, ⟨_, rfl⟩, rfl⟩
    | ok job =>
      obtain ⟨hmap, hjob⟩ := names_of_prepare hprepare
      obtain ⟨files', hwrite, hreplaced⟩ := writeAll_objects hmap hjob h
      simp only [hwrite]
      exact ⟨_, files', rfl, rfl, hreplaced⟩

/-- Only a rule whose job has been written succeeds. -/
theorem syncRule_eq (backends : List (Served ω)) (settings : JobSettings) (world : ω)
    (h : Ready d here files (baseName rule)) :
    ∃ r files', syncRule backends d.store settings rule world files
        = (r, (deed backends settings rule world).2, files')
      ∧ (r.status = .succeeded ↔ ∃ job, (deed backends settings rule world).1 = some (some job))
      ∧ match (deed backends settings rule world).1 with
        | some job => Replaced d here (baseName rule) job files files'
        | none => files' = files := by
  obtain ⟨status, files', hsync, htold, hdeed⟩ := syncRule_told backends settings world h
  exact ⟨_, files', hsync, htold.succeeded_iff, hdeed⟩

/-! ## All rules -/

/-- **The last deed** of the rules of a name. -/
def lastDeed (backends : List (Served ω)) (settings : JobSettings) (base : String) :
    List Rule → ω → Option (Option CopyJob)
  | [], _ => none
  | rule :: rest, world =>
    let (done, world) := deed backends settings rule world
    (lastDeed backends settings base rest world).or (if baseName rule = base then done else none)

theorem sync_append (store : ObjectStore Files) (before after : List Rule) (world : ω)
    (files : Files) : sync backends store settings (before ++ after) world files
      = let (rs, world, files) := sync backends store settings before world files
        let (rs', world, files) := sync backends store settings after world files
        (rs ++ rs', world, files) := by
  induction before generalizing world files with
  | nil => rfl
  | cons rule rest ih => simp only [List.cons_append, sync, ih]

theorem length_sync (backends : List (Served ω)) (settings : JobSettings)
    (store : ObjectStore Files) (rules : List Rule) (world : ω) (files : Files) :
    (sync backends store settings rules world files).1.length = rules.length := by
  induction rules generalizing world files with
  | nil => rfl
  | cons rule rest ih => simp only [sync, List.length_cons, ih]

/-- One rule keeps the files of all names writable. -/
theorem ready_of_deed {done : Option (Option CopyJob)}
    (h : match done with
      | some job => Replaced d here base job files files₁
      | none => files₁ = files) {other : String} (hready : Ready d here files other) :
    Ready d here files₁ other := by
  cases done with
  | none => exact h ▸ hready
  | some job => exact h.ready other hready

theorem slot_of_deed {done : Option (Option CopyJob)}
    (h : match done with
      | some job => Replaced d here base job files files₁
      | none => files₁ = files) (other : String) :
    slot here files₁ other
      = (if base = other then done else none).elim (slot here files other) slotOf := by
  cases done with
  | none => simp only [h, ite_self, Option.elim_none]
  | some job =>
    split
    · next he => exact he ▸ h.self
    · next hne => exact h.others other (Ne.symm hne)

/-- **What the last deed leaves is what is there at the end**, and can still be written. -/
theorem sync_slot (backends : List (Served ω)) (settings : JobSettings) (rules : List Rule)
    (world : ω) (files : Files)
    (hready : ∀ r ∈ rules, Ready d here files (baseName r)) :
    (∀ base, slot here (sync backends d.store settings rules world files).2.2 base
        = (lastDeed backends settings base rules world).elim (slot here files base) slotOf)
      ∧ ∀ base, Ready d here files base →
        Ready d here (sync backends d.store settings rules world files).2.2 base := by
  induction rules generalizing world files with
  | nil => exact ⟨fun _ => rfl, fun _ h => h⟩
  | cons rule rest ih =>
    obtain ⟨r, files', hsync, -, hdeed⟩ :=
      syncRule_eq backends settings world (hready rule List.mem_cons_self)
    obtain ⟨hslot, hkeeps⟩ := ih (deed backends settings rule world).2 files' fun r hr =>
      ready_of_deed hdeed (hready r (List.mem_cons_of_mem rule hr))
    simp only [sync, hsync, lastDeed]
    refine ⟨fun base => ?_, fun base h => hkeeps base (ready_of_deed hdeed h)⟩
    rw [hslot, slot_of_deed hdeed]
    cases lastDeed backends settings base rest (deed backends settings rule world).2 with
    | none => simp only [Option.none_or, Option.elim_none]
    | some last => simp only [Option.some_or, Option.elim_some]

/-- The texts of the manifests of a job. -/
def manifests (job : CopyJob) : List String := job.objects.map fun o => Yaml.document o.data

theorem slotOf_eq_iff {last : Option CopyJob} :
    slotOf last = slotOf (some job)
      ↔ ∃ job', last = some job' ∧ job'.manifests = job.manifests := by
  constructor
  · intro h
    obtain ⟨hmap, hjob⟩ := Prod.mk.inj h
    cases last with
    | none => exact absurd hmap (Option.some_ne_none _).symm
    | some job' =>
      have hmapText := Entry.file.inj (Option.some.inj hmap)
      have hjobText := Entry.file.inj (Option.some.inj hjob)
      exact ⟨job', rfl, congrArg₂ (fun a b => [a, b]) hmapText hjobText⟩
  · rintro ⟨job', rfl, h⟩
    obtain ⟨hmapText, htail⟩ := List.cons.inj h
    have hjobText := (List.cons.inj htail).1
    exact Prod.ext (congrArg (some ∘ Entry.file) hmapText) (congrArg (some ∘ Entry.file) hjobText)

/-- The manifests of a job are there just if its two files hold them. -/
theorem holds_iff_slot (hmap : job.configMap.metadata.name = some (configMapName rule))
    (hjob : job.cronJob.metadata.name = some (jobName rule))
    (h : Ready d here files (baseName rule)) :
    (∀ o ∈ job.objects, d.Holds files o) ↔ slot here files (baseName rule) = slotOf (some job) := by
  have hconfigMap : d.pathOf (.configMap job.configMap)
      = .ok (Files.join d.path (configMapFile (baseName rule))) := pathOf_configMap d hmap
  have hcronJob : d.pathOf (.cronJob job.cronJob)
      = .ok (Files.join d.path (cronJobFile (baseName rule))) := pathOf_cronJob d hjob
  rw [objects, List.forall_mem_cons, List.forall_mem_singleton,
    ManifestDirectory.holds_iff hconfigMap (simple_configMapFile rule) h.folder h.configMap,
    ManifestDirectory.holds_iff hcronJob (simple_cronJobFile rule) h.folder h.cronJob]
  exact ⟨fun hfiles => Prod.ext hfiles.1 hfiles.2, fun hslot => Prod.mk.inj hslot⟩

/-- The files of rules whose manifests can be written. -/
theorem ready_of_accepts {rules : List Rule}
    (h : ∀ r ∈ rules, ∀ o ∈ identity settings r, d.Accepts files o) (hrule : rule ∈ rules) :
    ∃ here, ∀ r ∈ rules, Ready d here files (baseName r) := by
  have hwrites : ∀ r ∈ rules,
      (∃ content files', files.write (Files.join d.path (cronJobFile (baseName r))) content
          = .ok files')
        ∧ ∃ content files', files.write (Files.join d.path (configMapFile (baseName r))) content
          = .ok files' := by
    intro r hr
    obtain ⟨hjob, hmap⟩ := List.forall_mem_cons.1 (h r hr)
    exact ⟨⟨_, hjob.write (pathOf_cronJob d rfl)⟩,
      ⟨_, (List.forall_mem_singleton.1 hmap).write (pathOf_configMap d rfl)⟩⟩
  obtain ⟨⟨content, files', hwrite⟩, -⟩ := hwrites rule hrule
  obtain ⟨here, hfolder⟩ := Folder.of_write (simple_cronJobFile rule) hwrite
  refine ⟨here, fun r hr => ?_⟩
  obtain ⟨⟨_, _, hjob⟩, ⟨_, _, hmap⟩⟩ := hwrites r hr
  exact ⟨hfolder, hfolder.takes_of_write (simple_configMapFile r) hmap,
    hfolder.takes_of_write (simple_cronJobFile r) hjob⟩

/-- **When a job is still there at the end** — the rule of a list that the copy tool is to carry out
succeeds just if its job can be built; and its job is there after all rules just if the last of the
later rules of its name, if there is one that does not fail, has written the same manifests. -/
theorem sync_keeps_iff (backends : List (Served ω)) (world : ω) {before after : List Rule}
    (haccepts : ∀ r ∈ before ++ rule :: after, ∀ o ∈ identity settings r, d.Accepts files o)
    (hcopy : rule.transport = .copyTool)
    (hworld : (sync backends d.store settings before world files).2.1 = world') :
    ∃ r, (sync backends d.store settings (before ++ rule :: after) world files).1[before.length]?
        = some r
      ∧ (r.status = .succeeded ↔ ∃ job, (prepare backends settings rule world').1 = .ok job)
      ∧ ∀ job world'', prepare backends settings rule world' = (.ok job, world'') →
        ((∀ o ∈ job.objects,
            d.Holds (sync backends d.store settings (before ++ rule :: after) world files).2.2 o)
          ↔ ∀ last, lastDeed backends settings (baseName rule) after world'' = some last →
              ∃ job', last = some job' ∧ job'.manifests = job.manifests) := by
  have hrule : rule ∈ before ++ rule :: after := List.mem_append_right before List.mem_cons_self
  obtain ⟨here, hready⟩ := ready_of_accepts haccepts hrule
  obtain ⟨-, hkeeps₁⟩ := sync_slot backends settings before world files
    fun r hr => hready r (List.mem_append_left _ hr)
  have hlength := length_sync backends settings d.store before world files
  rw [sync_append]
  generalize sync backends d.store settings before world files = first at *
  obtain ⟨rs, w, files₁⟩ := first
  obtain rfl : w = world' := hworld
  obtain ⟨r, files₂, hsync, hstatus, hdeed⟩ :=
    syncRule_eq backends settings w (hkeeps₁ _ (hready rule hrule))
  obtain ⟨hslot, hkeeps₂⟩ := sync_slot backends settings after (deed backends settings rule w).2
    files₂ fun r hr => ready_of_deed hdeed (hkeeps₁ _ (hready r (by simp [hr])))
  simp only [sync, hsync]
  refine ⟨r, ?_, hstatus.trans ?_, fun job world'' hprepare => ?_⟩
  · rw [← hlength, List.getElem?_append_right (Nat.le_refl _), Nat.sub_self]
    rfl
  · simp only [deed, hcopy]
    generalize prepare backends settings rule w = out
    obtain ⟨built, world''⟩ := out
    cases built <;> simp
  · have hdone : deed backends settings rule w = (some (some job), world'') := by
      simp only [deed, hcopy, hprepare]
    obtain ⟨hmap, hjob⟩ := names_of_prepare hprepare
    rw [hdone] at hslot hkeeps₂ hdeed ⊢
    have hready₂ := hdeed.ready _ (hkeeps₁ _ (hready rule hrule))
    rw [holds_iff_slot hmap hjob (hkeeps₂ _ hready₂), hslot, hdeed.self]
    cases lastDeed backends settings (baseName rule) after world'' with
    | none => simp only [Option.elim_none, reduceCtorEq, false_implies, implies_true]
    | some last => simp only [Option.elim_some, slotOf_eq_iff, Option.some.injEq, forall_eq']

/-! ## Names that clash

`os` towards `eu-edge` and `os-eu` towards `edge` are different rules with the same name of
objects. -/

/-- The registries of a hub and of two leaves. -/
def clashRegistries : List RegistrySpec :=
  [ ⟨"hub", .harbor, "https://hub.example.com", ⟨"admin", "secret"⟩, .globalHub, .empty⟩,
    ⟨"edge", .harbor, "https://edge.example.com", ⟨"admin", "secret"⟩, .leaf, .empty⟩,
    ⟨"eu-edge", .harbor, "https://eu-edge.example.com", ⟨"admin", "secret"⟩, .leaf, .empty⟩ ]

/-- The hub has one repository. -/
def clashBackends : List Memory :=
  match clashRegistries.map fun r => Memory.ofRegistry (.ofSpec ⟨false⟩ r) with
  | hub :: leaves => hub.addProject "os" ["app"] :: leaves
  | [] => []

/-- One project is copied on a schedule, the other by the registries themselves. -/
def clashProjects : List ProjectSpec :=
  [⟨"os", .everywhere, [], [], some "cron 0 3 * * *"⟩, ⟨"os-eu", .everywhere, [], [], none⟩]

/-- The rule of the scheduled project towards a leaf. -/
def scheduledRule (leaf : String) : Rule :=
  ⟨"os", "hub", leaf, .push, ⟨"cron 0 3 * * *"⟩, .copyTool⟩

/-- The rule of the other project towards a leaf. -/
def nativeRule (leaf : String) : Rule := ⟨"os-eu", "hub", leaf, .push, ⟨"event_based"⟩, .native⟩

/-- The rules behind the one that is taken away. -/
def nativeRules : List Rule := ["edge", "eu-edge"].map nativeRule

/-- A directory of manifests. -/
def clashDirectory : ManifestDirectory := ⟨"manifests"⟩

/-- The directory is empty. -/
def clashFiles : Files := ⟨Keyed.empty.insert "manifests" .directory⟩

theorem clash_plan : planFleet .standard (clashBackends.map Memory.registry) clashProjects
    = .ok ([scheduledRule "edge"] ++ scheduledRule "eu-edge" :: nativeRules) := by
  decide +kernel

theorem clash_accepts : ∀ r ∈ [scheduledRule "edge"] ++ scheduledRule "eu-edge" :: nativeRules,
    ∀ o ∈ identity .standard r, clashDirectory.Accepts clashFiles o := by
  have hall : ∀ r ∈ [scheduledRule "edge"] ++ scheduledRule "eu-edge" :: nativeRules,
      ∀ o ∈ identity .standard r, (clashDirectory.write o clashFiles).toOption.isSome = true := by
    decide +kernel
  exact fun r hr o ho => ManifestDirectory.accepts_of_isSome (hall r hr o ho)

/-- What is prepared for the rule that is taken away. -/
def clashPrepared : Except Failure CopyJob × World :=
  prepare (World.ofMemories clashBackends).served .standard (scheduledRule "eu-edge")
    (sync (World.ofMemories clashBackends).served clashDirectory.store .standard
      [scheduledRule "edge"] (World.ofMemories clashBackends) clashFiles).2.1

/-- All rules, one after the other. -/
def clashRun : List ActionResult × World × Files :=
  sync (World.ofMemories clashBackends).served clashDirectory.store .standard
    ([scheduledRule "edge"] ++ scheduledRule "eu-edge" :: nativeRules)
    (World.ofMemories clashBackends) clashFiles

theorem clash_builds : ∃ job world, clashPrepared = (.ok job, world)
    ∧ lastDeed (World.ofMemories clashBackends).served .standard
        (baseName (scheduledRule "eu-edge")) nativeRules world = some none := by
  have hbuilt : clashPrepared.1.toOption.isSome = true := by decide +kernel
  have hlast : lastDeed (World.ofMemories clashBackends).served .standard
      (baseName (scheduledRule "eu-edge")) nativeRules clashPrepared.2 = some none := by
    decide +kernel
  generalize clashPrepared = prepared at hbuilt hlast ⊢
  obtain ⟨built, world⟩ := prepared
  cases built with
  | ok job => exact ⟨job, world, rfl, hlast⟩
  | error e => cases hbuilt

theorem sync_keeps_iff_clash : ∃ job, clashPrepared.1 = .ok job
    ∧ ¬ ∀ o ∈ job.objects, clashDirectory.Holds clashRun.2.2 o := by
  obtain ⟨job, world, hprepared, hlast⟩ := clash_builds
  obtain ⟨-, -, -, hkeeps⟩ := sync_keeps_iff (World.ofMemories clashBackends).served
    (World.ofMemories clashBackends) clash_accepts rfl rfl
  refine ⟨job, congrArg Prod.fst hprepared, fun hholds => ?_⟩
  obtain ⟨job', hjob', -⟩ := (hkeeps job world hprepared).1 hholds none hlast
  cases hjob'

/-- **A later rule can take a job away** — not every job that has been written is there when all
rules of a plan have been dealt with. -/
theorem sync_loses_job : ¬ ∀ (registries : List RegistrySpec) (projects : List ProjectSpec)
    (ms : List Memory) (d : ManifestDirectory) (files : Files) (settings : JobSettings)
    (before after : List Rule) (rule : Rule) (job : CopyJob),
    (Snapshot.mk registries projects).check = .ok () →
    ms.map Memory.registry = registries.map (Registry.ofSpec ⟨false⟩) →
    planFleet .standard (ms.map Memory.registry) projects = .ok (before ++ rule :: after) →
    (∀ r ∈ before ++ rule :: after, ∀ o ∈ identity settings r, d.Accepts files o) →
    rule.transport = .copyTool →
    (prepare (World.ofMemories ms).served settings rule (sync (World.ofMemories ms).served d.store
      settings before (World.ofMemories ms) files).2.1).1 = .ok job →
    ∀ o ∈ job.objects, d.Holds (sync (World.ofMemories ms).served d.store settings
      (before ++ rule :: after) (World.ofMemories ms) files).2.2 o := by
  intro hkept
  obtain ⟨job, world, hprepared, -⟩ := clash_builds
  obtain ⟨path, hpath, hread⟩ := hkept clashRegistries clashProjects clashBackends clashDirectory
    clashFiles .standard [scheduledRule "edge"] nativeRules (scheduledRule "eu-edge") job
    (by decide +kernel) (by decide +kernel) clash_plan clash_accepts rfl
    (congrArg Prod.fst hprepared) (.configMap job.configMap) List.mem_cons_self
  obtain ⟨hmap, -⟩ := names_of_prepare hprepared
  rw [pathOf_configMap clashDirectory hmap] at hpath
  obtain rfl := Except.ok.inj hpath
  have habsent : clashRun.2.2.read (Files.join "manifests"
      (configMapFile (baseName (scheduledRule "eu-edge")))) = .error .absent := by
    decide +kernel
  exact absurd (habsent.symm.trans hread) (by simp)

end CopyJob

end RegistryFleet
