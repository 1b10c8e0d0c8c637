import RegistryFleet.Proofs.Copy.Contents
import RegistryFleet.Proofs.Copy.Script
import RegistryFleet.Proofs.Reconcile.Passwords

/-!
# Proofs/Copy/Passwords — nothing that is observed depends on a password

Only the script of a job holds passwords. It is built for all passwords free of NUL or for none, and
no place for cluster objects looks into it, so that the rules of two fleets that differ in their
passwords alone have the same results.

* `Served.Twin` — backends that differ in the password of their registry.
* `CopyJob.build_twins` — jobs for twins differ in nothing but their scripts.
* `CopyJob.sync_twins` — rules have the same results.
* `World.passwords_unobservable` — runs, plans and jobs of two fleets.
-/

namespace RegistryFleet

variable {ω σ τ : Type} {view : ω → ω} {seen : σ → τ}

/-- **Backends that differ in the password of their registry** at most, both passwords free of NUL.
What the backend answers goes by what is in view. -/
structure Served.Twin (view : ω → ω) (b b' : Served ω) : Prop where
  registry : b.registry.withoutPassword = b'.registry.withoutPassword
  quotable : '\x00' ∉ b.registry.credentials.password.toList
  quotable' : '\x00' ∉ b'.registry.credentials.password.toList
  serve : b.serve = b'.serve
  overlooks : ∀ c w, b.serve c (view w) = ((b.serve c w).1, view (b.serve c w).2)

namespace Served.Twin

variable {b b' : Served ω}

theorem name (h : Twin view b b') : b.registry.name = b'.registry.name :=
  (congrArg Registry.name h.registry :)

theorem host (h : Twin view b b') : b.registry.host = b'.registry.host :=
  (congrArg Registry.host h.registry :)

/-- The pairs of twins are both free of NUL, or both not. -/
theorem nul_mem_pair (h : Twin view b b') : '\x00' ∈ b.registry.credentials.pair.toList
    ↔ '\x00' ∈ b'.registry.credentials.pair.toList := by
  have husername : b.registry.credentials.username = b'.registry.credentials.username :=
    (congrArg (fun r : Registry => r.credentials.username) h.registry :)
  simp [Credentials.pair, h.quotable, h.quotable', husername]

/-- Calls to twins have the same answers, as far as worlds are the same in view. -/
theorem run {α : Type} (h : Twin view b b') (t : Calls α) {w w' : ω} (hw : view w = view w') :
    Prod.map id view (t.run b.serve w) = Prod.map id view (t.run b'.serve w') := by
  have himage := Calls.run_image h.overlooks t
  rw [← h.serve]
  exact (himage w).symm.trans ((congrArg _ hw).trans (himage w'))

end Served.Twin

namespace CopyJob

open Served (Twin)

variable {bs bs' : List (Served ω)} {settings : JobSettings} {rule : Rule} {w w' : ω} {s s' : σ}
  {store : ObjectStore σ}

/-! ## The two ends of a rule -/

theorem backendFor_twins (h : List.Forall₂ (Twin view) bs bs') (name : String) :
    Matching (Twin view) (backendFor bs name) (backendFor bs' name) := by
  induction h with
  | nil => exact .inl ⟨_, rfl, rfl⟩
  | @cons b b' rest rest' hb _ ih =>
    unfold backendFor at ih ⊢
    rw [List.find?_cons, List.find?_cons, ← hb.name]
    cases b.registry.name == name
    · exact ih
    · exact .inr ⟨b, b', rfl, rfl, hb⟩

theorem endsOf_twins (h : List.Forall₂ (Twin view) bs bs') (rule : Rule) :
    Matching (fun ends ends' => Twin view ends.1 ends'.1 ∧ Twin view ends.2 ends'.2)
      (endsOf bs rule) (endsOf bs' rule) := by
  refine (backendFor_twins h rule.here).bind fun here here' hhere =>
    (backendFor_twins h rule.there).bind fun there there' hthere => .inr ⟨_, _, rfl, rfl, ?_⟩
  unfold ends
  cases rule.direction with
  | push => exact ⟨hhere, hthere⟩
  | pull => exact ⟨hthere, hhere⟩

/-! ## Jobs -/

section

variable {b b' c c' : Served ω}

/-- There are scripts between twins, or there are none. -/
theorem scriptFor_twins (rule : Rule) (hsource : Twin view b b')
    (hdestination : Twin view c c') : Matching (fun _ _ => True)
      (scriptFor rule b.registry c.registry) (scriptFor rule b'.registry c'.registry) := by
  have hsome : (CopyTool.script? b.registry.credentials (destinationOf c.registry rule)
        c.registry.credentials).isSome
      = (CopyTool.script? b'.registry.credentials (destinationOf c'.registry rule)
        c'.registry.credentials).isSome := by
    rw [Bool.eq_iff_iff, CopyTool.isSome_script?, CopyTool.isSome_script?,
      hsource.nul_mem_pair, hdestination.nul_mem_pair, destinationOf, destinationOf,
      hdestination.host]
  unfold scriptFor
  generalize CopyTool.script? b.registry.credentials _ _ = script at hsome ⊢
  generalize CopyTool.script? b'.registry.credentials _ _ = script' at hsome ⊢
  cases script with
  | none =>
    cases script' with
    | none => exact .inl ⟨_, rfl, rfl⟩
    | some _ => cases hsome
  | some script =>
    cases script' with
    | none => cases hsome
    | some script' => exact .inr ⟨_, _, rfl, rfl, trivial⟩

/-- **Jobs for twins** fail alike, or differ in nothing but their scripts. -/
theorem build_twins (settings : JobSettings) (rule : Rule) (hsource : Twin view b b')
    (hdestination : Twin view c c') (repositories : List Repository) :
    Matching (fun job job' => List.Forall₂ ClusterObject.Alike job.objects job'.objects)
      (build settings rule b.registry c.registry repositories)
      (build settings rule b'.registry c'.registry repositories) := by
  unfold build
  by_cases htransport : rule.transport = .copyTool
  · rw [if_neg (not_not_intro htransport), if_neg (not_not_intro htransport)]
    cases rule.trigger.schedule with
    | none => exact .inl ⟨_, rfl, rfl⟩
    | some schedule =>
      exact (scriptFor_twins rule hsource hdestination).bind fun _ _ _ =>
        .inr ⟨_, _, rfl, rfl, .cons (.configMap rfl) (.cons (.cronJob rfl) .nil)⟩
  · rw [if_pos htransport, if_pos htransport]
    exact .inl ⟨_, rfl, rfl⟩

end

theorem prepare_twins (h : List.Forall₂ (Twin view) bs bs') (settings : JobSettings) (rule : Rule)
    (hw : view w = view w') :
    Matching (fun job job' => List.Forall₂ ClusterObject.Alike job.objects job'.objects)
        (prepare bs settings rule w).1 (prepare bs' settings rule w').1
      ∧ view (prepare bs settings rule w).2 = view (prepare bs' settings rule w').2 := by
  unfold prepare
  rcases endsOf_twins h rule with ⟨e, he, he'⟩
    | ⟨⟨source, destination⟩, ⟨source', destination'⟩, hok, hok', hsource, hdestination⟩
  · rw [he, he']
    exact ⟨.inl ⟨e, rfl, rfl⟩, hw⟩
  · obtain ⟨listed, v, v', hrun, hrun', hv⟩ :=
      step_of_view (hsource.run (repositoriesOf rule.project) hw)
    simp only [hok, hok', hrun, hrun']
    cases listed with
    | error e => exact ⟨.inl ⟨_, rfl, rfl⟩, hv⟩
    | ok repositories =>
      exact ⟨build_twins settings rule hsource hdestination repositories, hv⟩

/-! ## Rules -/

theorem writeFor_twins (h : List.Forall₂ (Twin view) bs bs') (hstore : store.Blind seen)
    (settings : JobSettings) (rule : Rule) (hw : view w = view w') (hs : seen s = seen s') :
    Prod.map id (Prod.map view seen) (writeFor bs store settings rule w s)
      = Prod.map id (Prod.map view seen) (writeFor bs' store settings rule w' s') := by
  have hprepare := prepare_twins h settings rule hw
  unfold writeFor
  generalize prepare bs settings rule w = out at hprepare ⊢
  generalize prepare bs' settings rule w' = out' at hprepare ⊢
  obtain ⟨prepared, v⟩ := out
  obtain ⟨prepared', v'⟩ := out'
  obtain ⟨⟨e, rfl, rfl⟩ | ⟨job, job', rfl, rfl, hobjects⟩, hv⟩ := hprepare
  · exact Prod.ext rfl (Prod.ext hv hs)
  · obtain ⟨hresult, hseen⟩ := Prod.mk.inj (hstore.write.each hobjects hs)
    exact Prod.ext hresult (Prod.ext hv hseen)

/-- **One rule** has the same result, and leaves what is the same in view. -/
theorem syncRule_twins (h : List.Forall₂ (Twin view) bs bs') (hstore : store.Blind seen)
    (settings : JobSettings) (rule : Rule) (hw : view w = view w') (hs : seen s = seen s') :
    Prod.map id (Prod.map view seen) (syncRule bs store settings rule w s)
      = Prod.map id (Prod.map view seen) (syncRule bs' store settings rule w' s') := by
  unfold syncRule
  cases rule.transport with
  | native =>
    have hremove : Prod.map id seen (store.removeAll (identity settings rule) s)
        = Prod.map id seen (store.removeAll (identity settings rule) s') :=
      hstore.remove.each (List.forall₂_same.2 fun o _ => .refl o) hs
    obtain ⟨result, t, t', hs, hs', ht⟩ := step_of_view hremove
    simp only [hs, hs']
    cases result <;> exact Prod.ext rfl (Prod.ext hw ht)
  | copyTool =>
    obtain ⟨result, after, after', hwrite, hwrite', hview⟩ :=
      step_of_view (writeFor_twins h hstore settings rule hw hs)
    simp only [hwrite, hwrite']
    cases result <;> exact Prod.ext rfl hview

/-- **Rules have the same results.** -/
theorem sync_twins (h : List.Forall₂ (Twin view) bs bs') (hstore : store.Blind seen)
    (settings : JobSettings) : ∀ (rules : List Rule) {w w' : ω} {s s' : σ}, view w = view w' →
      seen s = seen s' →
      Prod.map id (Prod.map view seen) (sync bs store settings rules w s)
        = Prod.map id (Prod.map view seen) (sync bs' store settings rules w' s')
  | [], _, _, _, _, hw, hs => Prod.ext rfl (Prod.ext hw hs)
  | rule :: rest, w, w', s, s', hw, hs => by
      obtain ⟨r, ⟨v, t⟩, ⟨v', t'⟩, hrule, hrule', hview⟩ :=
        step_of_view (syncRule_twins h hstore settings rule hw hs)
      obtain ⟨hv, ht⟩ := Prod.mk.inj hview
      obtain ⟨hresults, hafter⟩ := Prod.mk.inj (sync_twins h hstore settings rest hv ht)
      simp only [sync, hrule, hrule']
      exact Prod.ext (congrArg (r :: ·) hresults) hafter

end CopyJob

/-! ## Two fleets -/

namespace World

variable {w w' : World}

/-- The registries of the backends. -/
def registries (w : World) : List Registry := w.backends.map fun b => b.profile.registry

/-- The registries of worlds that differ only in passwords. -/
theorem registries_withoutPasswords (h : w.withoutPasswords = w'.withoutPasswords) :
    w.registries.map Registry.withoutPassword = w'.registries.map Registry.withoutPassword := by
  have hregistry : ∀ v : World, v.withoutPasswords.registries.map Registry.withoutPassword
      = v.registries.map Registry.withoutPassword := by
    intro v
    simp only [registries, withoutPasswords, List.map_map]
    exact List.map_congr_left fun b _ => by cases b <;> rfl
  rw [← hregistry w, h, hregistry w']

theorem length_served (w : World) : w.served.length = w.registries.length := by
  simp [served, registries, numbered]

theorem getElem_served (w : World) {i : Nat} (hi : i < w.served.length)
    (hi' : i < w.registries.length) : w.served[i] = ⟨w.registries[i], serve i⟩ := by
  simp [served, registries, numbered]

/-- The backends of worlds that differ only in passwords are twins. -/
theorem served_twins (h : w.withoutPasswords = w'.withoutPasswords)
    (hnul : ∀ r ∈ w.registries ++ w'.registries, '\x00' ∉ r.credentials.password.toList) :
    List.Forall₂ (Served.Twin withoutPasswords) w.served w'.served := by
  have hregistries := registries_withoutPasswords h
  have hlength : w.registries.length = w'.registries.length := by
    simpa using congrArg List.length hregistries
  refine List.forall₂_iff_get.2 ⟨by rw [length_served, length_served, hlength], fun i hi hi' => ?_⟩
  have hr : i < w.registries.length := w.length_served ▸ hi
  have hr' : i < w'.registries.length := w'.length_served ▸ hi'
  rw [List.get_eq_getElem, List.get_eq_getElem, getElem_served w hi hr, getElem_served w' hi' hr']
  exact
    { registry := by simpa [hr, hr'] using congrArg (·[i]?) hregistries
      quotable := hnul _ (List.mem_append_left _ (List.getElem_mem hr))
      quotable' := hnul _ (List.mem_append_right _ (List.getElem_mem hr'))
      serve := rfl
      overlooks := serve_withoutPasswords i }

/-- **Nothing that is observed depends on a password** — of fleets that differ only in the passwords
of their registries, all of them free of NUL and all backends whose passwords differ in memory. Runs
have the same reports, and leave the same backends, apart from their passwords, and the same files;
plans have the same rules; and dealing with rules has the same results, whether their objects are
kept in a directory or in a cluster. A cancellation of a run stays signalled (`Signals`). -/
theorem passwords_unobservable (h : w.withoutPasswords = w'.withoutPasswords)
    (hnul : ∀ r ∈ w.registries ++ w'.registries, '\x00' ∉ r.credentials.password.toList) :
    (∀ directory settings cancel projects,
      (w.reconcile directory settings cancel projects).1
          = (w'.reconcile directory settings cancel projects).1
        ∧ (w.reconcile directory settings cancel projects).2.withoutPasswords
          = (w'.reconcile directory settings cancel projects).2.withoutPasswords
        ∧ (w.reconcile directory settings cancel projects).2.files
          = (w'.reconcile directory settings cancel projects).2.files)
    ∧ (∀ settings projects,
      planFleet settings w.registries projects = planFleet settings w'.registries projects)
    ∧ (∀ (directory : ManifestDirectory) settings rules files,
      (CopyJob.sync w.served directory.store settings rules w files).1
        = (CopyJob.sync w'.served directory.store settings rules w' files).1)
    ∧ ∀ (api : ClusterApi) settings rules cluster,
      (CopyJob.sync w.served api.store settings rules w cluster).1
        = (CopyJob.sync w'.served api.store settings rules w' cluster).1 := by
  have htwins := served_twins h hnul
  refine ⟨fun directory settings cancel projects => ?_, fun settings projects => ?_,
    fun directory settings rules files => ?_, fun api settings rules cluster => ?_⟩
  · have hrun := w.reconcile_withoutPasswords directory settings cancel projects
    have hrun' := w'.reconcile_withoutPasswords directory settings cancel projects
    rw [h, hrun'] at hrun
    obtain ⟨hreport, hafter⟩ := Prod.mk.inj hrun
    exact ⟨hreport.symm, hafter.symm, (congrArg World.files hafter.symm :)⟩
  · rw [← planFleet_withoutPasswords, registries_withoutPasswords h, planFleet_withoutPasswords]
  · have hsync := CopyJob.sync_twins htwins directory.blind_store settings rules h
      (rfl : files.withoutContents = _)
    exact (Prod.mk.inj hsync).1
  · have hsync := CopyJob.sync_twins htwins api.blind_store settings rules h
      (rfl : cluster.responses = _)
    exact (Prod.mk.inj hsync).1

/-- The backends of a pull, with other passwords. -/
def rekeyedBackends : List Memory :=
  CopyJob.pullBackends.map fun m =>
    { m with registry := { m.registry with credentials :=
        ⟨m.registry.credentials.username, m.registry.name ++ "'\n$repo"⟩ } }

/-- The project of the pull, with a robot. -/
def pulledProject : ProjectSpec := ⟨"os", .everywhere, [], [⟨"ci", .robot, "Developer"⟩], none⟩

theorem passwords_unobservable_pull : CopyJob.pullBackends ≠ rekeyedBackends
    ∧ ((ofMemories CopyJob.pullBackends).reconcile (some ⟨"secrets", .yaml⟩) .standard none
        [pulledProject]).1
      = ((ofMemories rekeyedBackends).reconcile (some ⟨"secrets", .yaml⟩) .standard none
        [pulledProject]).1
    ∧ planFleet .standard (rekeyedBackends.map Memory.registry) [pulledProject]
      = .ok [CopyJob.pullRule]
    ∧ (CopyJob.sync (ofMemories rekeyedBackends).served CopyJob.clashDirectory.store .standard
        [CopyJob.pullRule] (ofMemories rekeyedBackends) CopyJob.clashFiles).1
      = [.plain (CopyJob.describe CopyJob.pullRule) .succeeded] := by
  have h : (ofMemories CopyJob.pullBackends).withoutPasswords
      = (ofMemories rekeyedBackends).withoutPasswords := rfl
  obtain ⟨hruns, hplans, hdirectory, -⟩ := passwords_unobservable h (by decide)
  exact ⟨by decide, (hruns _ _ _ _).1, (hplans _ _).symm.trans (by decide +kernel),
    (hdirectory _ _ _ _).symm.trans (by decide +kernel)⟩

end World

end RegistryFleet
